import SceneQuiz.Machine.Value
import SceneQuiz.Page
/-!
Renderings that end well, and values that look the same.  A rendering completes if it
gives a text, unless the start of some numbering is no integer, and leaves as many
numberings open as it found.  Markers complete if they have the shape that templates
give them and what is inside them completes; an index needs a numbering around it.

Two values are rendered alike if they give the same text or the same fault and leave
the same page, wherever and with whatever processor they are rendered.  Lists of
values are compared by what their items give one after the other, so that a tagged
list may be taken apart and neighbouring texts may be joined.
-/

namespace SceneQuiz

namespace IndexStyle

/-- The pattern of a style is a pattern. -/
theorem exists_ofPattern? (style : IndexStyle) :
    ∃ found, ofPattern? style.pattern = some found := by
  cases style with
  | padded width =>
      have hzeros : (List.replicate (width - 1) '0' ++ ['1']).takeWhile (· == '0') =
          List.replicate (width - 1) '0' := by
        simp
      simp only [ofPattern?, pattern, String.toList_ofList, hzeros, if_true]
      repeat (split <;> first | exact ⟨_, rfl⟩ | skip)
  | _ => exact ⟨_, rfl⟩

end IndexStyle

namespace Render

variable {α β : Type} {inside : Bool}

/-- A rendering that needs a numbering around it only if it is `inside` one, and
then fails at most because a start is no integer. -/
structure Completes (inside : Bool) (render : Render α) : Prop where
  ends : ∀ page : Page, (inside = true → page.numberings ≠ []) →
    (∃ result after, render page = .ok result after ∧
      after.numberings.length = page.numberings.length) ∨
    ∃ after, render page = .error (.malformed "indexing" .startNoInteger) after

namespace Completes

theorem value (result : α) : Completes inside (pure result) :=
  ⟨fun page _ => .inl ⟨result, page, rfl, rfl⟩⟩

theorem bind {render : Render α} {next : α → Render β} (h : Completes inside render)
    (hnext : ∀ result, Completes inside (next result)) : Completes inside (render >>= next) := by
  constructor
  intro page hpage
  rcases h.ends page hpage with ⟨result, middle, hrender, hlength⟩ | ⟨after, hrender⟩
  · have hthen : (render >>= next) page = next result middle := by
      change EStateM.bind render next page = _
      simp [EStateM.bind, hrender]
    have hmiddle : inside = true → middle.numberings ≠ [] := by
      intro hinside hnil
      apply hpage hinside
      rw [hnil] at hlength
      exact List.length_eq_zero_iff.mp hlength.symm
    rw [hthen, ← hlength]
    exact (hnext result).ends middle hmiddle
  · right
    refine ⟨after, ?_⟩
    change EStateM.bind render next page = _
    simp [EStateM.bind, hrender]

theorem current : Completes inside (get : Render Page) :=
  ⟨fun page _ => .inl ⟨page, page, rfl, rfl⟩⟩

theorem startless : Completes inside (malformed "indexing" .startNoInteger : Render α) :=
  ⟨fun page _ => .inr ⟨page, rfl⟩⟩

theorem nextReveal : Completes inside Render.nextReveal :=
  ⟨fun _ _ => .inl ⟨_, _, rfl, rfl⟩⟩

/-- Inside a numbering there is one. -/
theorem numbered (numbering : Numbering) {body : Render String} (h : Completes true body) :
    Completes inside (Render.numbered numbering body) := by
  constructor
  intro page _
  rcases h.ends { page with numberings := numbering :: page.numberings } (by simp) with
    ⟨text, after, hbody, hlength⟩ | ⟨after, hbody⟩
  · left
    refine ⟨text, { after with numberings := after.numberings.tail }, ?_, ?_⟩
    · simp [Render.numbered, hbody]
    · simp [hlength]
  · right
    exact ⟨{ after with numberings := after.numberings.tail }, by simp [Render.numbered, hbody]⟩

theorem index : Completes true Render.index := by
  constructor
  intro page hpage
  obtain ⟨numbering, outer, hopen⟩ := List.exists_cons_of_ne_nil (hpage rfl)
  left
  simp only [Render.index, hopen]
  exact ⟨_, _, rfl, rfl⟩

theorem concat {renderings : List Rendering}
    (h : ∀ rendering ∈ renderings, Completes inside rendering.2) :
    Completes inside (Render.concat renderings) := by
  induction renderings with
  | nil => exact value ""
  | cons rendering rest ih =>
      rw [List.forall_mem_cons] at h
      apply h.1.bind
      intro text
      exact (ih h.2).bind fun others => value (text ++ others)

variable {first second body : Render String}

theorem indexing (style : IndexStyle) (start shown : Datum) (h : Completes true body) :
    Completes inside
      (Render.indexing [(.str style.pattern, first), (start, second), (shown, body)]) := by
  obtain ⟨found, hfound⟩ := style.exists_ofPattern?
  simp only [Render.indexing, needText, pure_bind, hfound]
  split
  · exact startless
  · exact (numbered _ h).bind fun _ => value _

theorem reveal (input : String) (value shown : Datum) (h : Completes inside body) :
    Completes inside (Render.reveal [(.str input, first), (value, second), (shown, body)]) := by
  simp only [Render.reveal, needText, pure_bind]
  exact nextReveal.bind fun _ => h.bind fun _ => .value _

theorem lang (codes : String) (shown : Datum) (h : Completes inside body) :
    Completes inside (Render.lang [(.str codes, first), (shown, body)]) := by
  simp only [Render.lang, needText, pure_bind]
  apply current.bind
  intro page
  split
  · exact h
  · split
    · exact h
    · exact value ""

end Completes

end Render

namespace Value

/-- A value as a rendering. -/
def rendering (processor : Processor) (value : Value) : Rendering :=
  (value.toDatum, value.toDatum.render processor)

theorem renderings_toData (processor : Processor) (values : List Value) :
    Datum.renderings processor (toData values) = values.map (rendering processor) := by
  induction values with
  | nil => rfl
  | cons value rest ih => simp only [toData, Datum.renderings, ih, List.map_cons, rendering]

section Markers

variable (processor : Processor)

theorem render_root (values : List Value) :
    (Value.list (.str rootTag :: values)).toDatum.render processor =
      Render.concat (values.map (rendering processor)) := by
  rw [← renderings_toData]
  rfl

theorem render_indexing (pattern : String) (start body : Value) :
    (Value.list [.str "indexing", .str pattern, start, body]).toDatum.render processor =
      Render.indexing [(.str pattern, pure pattern), start.rendering processor,
        body.rendering processor] := rfl

theorem render_reveal (input : String) (shown body : Value) :
    (Value.list [.str "reveal", .str input, shown, body]).toDatum.render processor =
      Render.reveal [(.str input, pure input), shown.rendering processor,
        body.rendering processor] := rfl

theorem render_lang (codes : String) (body : Value) :
    (Value.list [.str "lang", .str codes, body]).toDatum.render processor =
      Render.lang [(.str codes, pure codes), body.rendering processor] := rfl

end Markers

/-- A value that is rendered without markers of other kinds or shapes. -/
def Renders (inside : Bool) (value : Value) : Prop :=
  Render.Completes inside (value.toDatum.render Processor.none)

/-- A text. -/
def IsText (value : Value) : Prop := ∃ text, value = .str text

variable {inside : Bool}

theorem IsText.renders {value : Value} (h : value.IsText) : value.Renders inside := by
  obtain ⟨text, rfl⟩ := h
  exact .value text

theorem renders_root {values : List Value} (h : ∀ value ∈ values, value.Renders inside) :
    (Value.list (.str rootTag :: values)).Renders inside := by
  rw [Renders, render_root]
  exact .concat (List.forall_mem_map.mpr h)

theorem renders_indexing (style : IndexStyle) (start : Value) {body : Value}
    (h : body.Renders true) :
    (Value.list [.str "indexing", .str style.pattern, start, body]).Renders inside := by
  rw [Renders, render_indexing]
  exact .indexing style _ _ h

theorem renders_index : (Value.list [.str "index"]).Renders true :=
  Render.Completes.index

theorem renders_reveal (input : String) (shown : Value) {body : Value}
    (h : body.Renders inside) :
    (Value.list [.str "reveal", .str input, shown, body]).Renders inside := by
  rw [Renders, render_reveal]
  exact .reveal input _ _ h

theorem renders_lang (codes : String) {body : Value} (h : body.Renders inside) :
    (Value.list [.str "lang", .str codes, body]).Renders inside := by
  rw [Renders, render_lang]
  exact .lang codes _ h

end Value

namespace Render

/-- Rendering goes on after some values. -/
theorem concat_append (renderings others : List Rendering) :
    concat (renderings ++ others) = do
      let text ← concat renderings
      let rest ← concat others
      return text ++ rest := by
  induction renderings with
  | nil => simp only [List.nil_append, concat, pure_bind, String.empty_append, bind_pure]
  | cons rendering rest ih =>
      simp only [List.cons_append, concat, ih, bind_assoc, pure_bind, String.append_assoc]

theorem concat_single (rendering : Rendering) : concat [rendering] = rendering.2 := by
  simp [concat]

end Render

namespace Value

/-- Values that are rendered alike. -/
def RendersAs (first second : Value) : Prop :=
  ∀ processor, first.toDatum.render processor = second.toDatum.render processor

/-- Values that are rendered alike one after the other. -/
def JoinAs (firsts seconds : List Value) : Prop :=
  ∀ processor, Render.concat (firsts.map (rendering processor)) =
    Render.concat (seconds.map (rendering processor))

theorem rendering_str (processor : Processor) (text : String) :
    rendering processor (.str text) = (.str text, pure text) := rfl

theorem RendersAs.refl (value : Value) : value.RendersAs value := fun _ => rfl

namespace JoinAs

variable {firsts seconds thirds others mores : List Value}

theorem refl (values : List Value) : JoinAs values values := fun _ => rfl

theorem trans (hfirst : JoinAs firsts seconds) (hsecond : JoinAs seconds thirds) :
    JoinAs firsts thirds :=
  fun processor => (hfirst processor).trans (hsecond processor)

theorem append (h : JoinAs firsts seconds) (hothers : JoinAs others mores) :
    JoinAs (firsts ++ others) (seconds ++ mores) := by
  intro processor
  rw [List.map_append, List.map_append, Render.concat_append, Render.concat_append, h processor,
    hothers processor]

theorem cons {first second : Value} (h : first.RendersAs second) (hrest : JoinAs firsts seconds) :
    JoinAs (first :: firsts) (second :: seconds) := by
  intro processor
  simp only [List.map_cons, rendering, Render.concat, h processor, hrest processor]

/-- A tagged list may be taken apart. -/
theorem of_root (values : List Value) : JoinAs [.list (.str rootTag :: values)] values := by
  intro processor
  rw [List.map_singleton, Render.concat_single]
  exact render_root processor values

/-- An empty text may be left out. -/
theorem drop_text (values : List Value) : JoinAs (.str "" :: values) values := by
  intro processor
  simp only [List.map_cons, rendering_str, Render.concat, pure_bind, String.empty_append,
    bind_pure]

/-- Neighbouring texts may be joined. -/
theorem join_texts (text more : String) (values : List Value) :
    JoinAs (.str text :: .str more :: values) (.str (text ++ more) :: values) := by
  intro processor
  simp only [List.map_cons, rendering_str, Render.concat, bind_assoc, pure_bind,
    String.append_assoc]

theorem root (h : JoinAs firsts seconds) :
    (Value.list (.str rootTag :: firsts)).RendersAs (.list (.str rootTag :: seconds)) := by
  intro processor
  rw [render_root, render_root, h processor]

end JoinAs

namespace RendersAs

variable {first second : Value} (h : first.RendersAs second)

include h

theorem indexing (pattern : String) (start : Value) :
    (Value.list [.str "indexing", .str pattern, start, first]).RendersAs
      (.list [.str "indexing", .str pattern, start, second]) := by
  intro processor
  rw [render_indexing, render_indexing]
  simp only [rendering, Render.indexing, h processor]

theorem reveal (input : String) (shown : Value) :
    (Value.list [.str "reveal", .str input, shown, first]).RendersAs
      (.list [.str "reveal", .str input, shown, second]) := by
  intro processor
  rw [render_reveal, render_reveal]
  simp only [rendering, Render.reveal, h processor]

theorem lang (codes : String) :
    (Value.list [.str "lang", .str codes, first]).RendersAs
      (.list [.str "lang", .str codes, second]) := by
  intro processor
  rw [render_lang, render_lang]
  simp only [rendering, Render.lang, h processor]

end RendersAs

/-- Values a variable may hold instead of each other while their items are
collected: if one is a list, so is the other, and their items are rendered
alike. -/
def CollectsAs (first second : Value) : Prop :=
  ∀ firsts, first = .list firsts → ∃ seconds, second = .list seconds ∧ JoinAs firsts seconds

theorem CollectsAs.refl (value : Value) : value.CollectsAs value :=
  fun values heq => ⟨values, heq, .refl values⟩

end Value

end SceneQuiz
