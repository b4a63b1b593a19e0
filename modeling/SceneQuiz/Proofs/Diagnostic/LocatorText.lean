import SceneQuiz.Locator
import SceneQuiz.Proofs.Decimal.WholeNumber
import SceneQuiz.Proofs.Source.Location
/-!
Locators as texts.  The text of a locator is cut where its segments meet, and each
piece is read as the segment it was written for, as long as no field looks like
something else: no separator may stand in it, it is none of the words for branches,
and it does not stand alone with the name of the question.
-/

namespace SceneQuiz

namespace Text

variable {sep : Char}

theorem cutChars_append {before : List Char} (h : sep ∉ before) (after : List Char) :
    cutChars sep (before ++ sep :: after) = some (before, after) := by
  induction before with
  | nil => simp [cutChars]
  | cons c before ih =>
      obtain ⟨hc, hbefore⟩ := List.ne_and_not_mem_of_not_mem_cons h
      rw [List.cons_append, cutChars, if_neg (Ne.symm hc), ih hbefore]
      rfl

theorem cutChars_of_not_mem {cs : List Char} (h : sep ∉ cs) : cutChars sep cs = none := by
  induction cs with
  | nil => rfl
  | cons c cs ih =>
      obtain ⟨hc, hcs⟩ := List.ne_and_not_mem_of_not_mem_cons h
      rw [cutChars, if_neg (Ne.symm hc), ih hcs]
      rfl

/-- Pieces that are joined by the separator are cut apart again. -/
theorem splitAt_intercalate {joint : String} (hjoint : joint.toList = [sep])
    {pieces : List String} (hne : pieces ≠ [])
    (h : ∀ piece ∈ pieces, sep ∉ piece.toList) :
    splitAt sep (joint.intercalate pieces) = pieces := by
  induction pieces with
  | nil => exact absurd rfl hne
  | cons piece rest ih =>
      rw [List.forall_mem_cons] at h
      have hpiece := splitChars_of_not_mem h.1
      by_cases hrest : rest = []
      · simp [splitAt, hrest, hpiece]
      · have hcut := ih hrest h.2
        rw [splitAt] at hcut ⊢
        rw [String.intercalate_cons_of_ne_nil hrest, String.toList_append,
          String.toList_append, hjoint, List.append_assoc, List.singleton_append,
          splitChars_sep, List.map_append, hpiece, hcut]
        simp

end Text

namespace Segment

/-- The kind and the index of a segment, if it has an index. -/
def indexed? : Segment → Option (String × Nat)
  | .scene n => some ("scene", n)
  | .tree n => some ("prt", n)
  | .node n => some ("node", n)
  | .input n => some ("input", n)
  | .stateVariable n => some ("statevar", n)
  | .validationBox n => some ("vbox", n)
  | .branch _ | .field _ => none

/-- The index of the segment is one that an unsigned 64-bit word holds. -/
def Fits (segment : Segment) : Prop :=
  ∀ found ∈ segment.indexed?, found.2 < Decimal.twoPow 64

/-- A field that is written like a field and like nothing else. -/
def Plain : Segment → Prop
  | .field name => name ≠ "" ∧ '/' ∉ name.toList ∧ ':' ∉ name.toList ∧
      name ≠ "true" ∧ name ≠ "false"
  | _ => True

instance : DecidablePred Plain
  | .field name => inferInstanceAs (Decidable (name ≠ "" ∧ '/' ∉ name.toList ∧
      ':' ∉ name.toList ∧ name ≠ "true" ∧ name ≠ "false"))
  | .scene _ | .tree _ | .node _ | .input _ | .stateVariable _ | .validationBox _
  | .branch _ => .isTrue trivial

variable {segment : Segment} {kind : String} {n : Nat}

theorem text_of_indexed? (h : segment.indexed? = some (kind, n)) :
    segment.text = kind ++ ":" ++ toString n := by
  cases segment <;> cases h <;> rfl

/-- Kinds are words of letters, so no separator stands in them. -/
theorem isAlpha_of_mem_kind (h : segment.indexed? = some (kind, n)) :
    ∀ c ∈ kind.toList, c.isAlpha = true := by
  rw [← List.all_eq_true]
  cases segment <;> cases h <;> decide +kernel

theorem slash_not_mem_text (h : segment.Plain) : '/' ∉ segment.text.toList := by
  cases hindexed : segment.indexed? with
  | some label =>
      obtain ⟨kind, n⟩ := label
      have hkind : '/' ∉ kind.toList := fun hmem =>
        absurd (isAlpha_of_mem_kind hindexed _ hmem) (by decide)
      have hdigits : '/' ∉ Nat.toDigits 10 n := by
        intro hmem
        have hdigit := Nat.isDigit_of_mem_toDigits (by omega) (by omega) hmem
        simp at hdigit
      simp [text_of_indexed? hindexed, hkind, hdigits]
  | none =>
      cases segment with
      | field name => exact h.2.1
      | branch outcome => cases outcome <;> decide +kernel
      | _ => cases hindexed

end Segment

namespace Locator

variable {segment : Segment} {locator : Locator}

theorem cutAt_label {kind : String} (h : ':' ∉ kind.toList) (index : String) :
    Text.cutAt ':' (kind ++ ":" ++ index) = some (kind, index) := by
  have hcut := Text.cutChars_append h index.toList
  simp [Text.cutAt, hcut]

/-- A segment that is written plainly is read as what it is. -/
theorem readSegment_text (hplain : segment.Plain) (hfits : segment.Fits) :
    readSegment segment.text = .ok segment := by
  cases hindexed : segment.indexed? with
  | some label =>
      obtain ⟨kind, n⟩ := label
      have hkind : ':' ∉ kind.toList := fun hmem =>
        absurd (Segment.isAlpha_of_mem_kind hindexed _ hmem) (by decide)
      have hindex : readIndex? (toString n) = some n :=
        Decimal.readUnsigned?_toString (hfits _ hindexed)
      rw [readSegment, Segment.text_of_indexed? hindexed, cutAt_label hkind]
      simp only [hindex]
      cases segment <;> cases hindexed <;> rfl
  | none =>
      cases segment with
      | field name =>
          obtain ⟨-, -, hcolon, htrue, hfalse⟩ := hplain
          have hcut : Text.cutAt ':' name = none := by
            simp [Text.cutAt, Text.cutChars_of_not_mem hcolon]
          simp [readSegment, Segment.text, hcut, htrue, hfalse]
      | branch outcome => cases outcome <;> rfl
      | _ => cases hindexed

/-- A locator whose fields are written plainly, and which is not taken for the
question as a whole. -/
structure Plain (locator : Locator) : Prop where
  segments : ∀ segment ∈ locator, segment.Plain
  apart : locator ≠ [.field "question"]

theorem splitAt_text (hne : locator ≠ []) (h : ∀ segment ∈ locator, segment.Plain) :
    Text.splitAt '/' locator.text = locator.map Segment.text := by
  obtain ⟨first, rest, rfl⟩ := List.exists_cons_of_ne_nil hne
  apply Text.splitAt_intercalate rfl (by simp)
  intro piece hpiece
  obtain ⟨segment, hsegment, rfl⟩ := List.mem_map.mp hpiece
  exact Segment.slash_not_mem_text (h segment hsegment)

theorem mapM_readSegment (hplain : ∀ segment ∈ locator, segment.Plain)
    (hfits : ∀ segment ∈ locator, segment.Fits) :
    (locator.map Segment.text).mapM readSegment = .ok locator := by
  induction locator with
  | nil => rfl
  | cons segment rest ih =>
      rw [List.forall_mem_cons] at hplain hfits
      rw [List.map_cons, List.mapM_cons, readSegment_text hplain.1 hfits.1,
        ih hplain.2 hfits.2]
      rfl

/-- A text without separators is the text of a locator of one segment only, and that
segment is a field of this name. -/
theorem eq_field_of_text (hne : locator ≠ []) (hplain : ∀ segment ∈ locator, segment.Plain)
    (hfits : ∀ segment ∈ locator, segment.Fits) {name : String}
    (hsplit : Text.splitAt '/' name = [name])
    (hfield : readSegment name = .ok (.field name)) (htext : locator.text = name) :
    locator = [.field name] := by
  have hpieces := splitAt_text hne hplain
  have hread := mapM_readSegment hplain hfits
  rw [htext, hsplit] at hpieces
  rw [← hpieces, List.mapM_cons, hfield] at hread
  exact (Except.ok.inj hread).symm

/-- A plain locator survives its text form. -/
theorem read_text (h : locator.Plain) (hfits : ∀ segment ∈ locator, segment.Fits) :
    read locator.text = .ok locator := by
  by_cases hroot : locator = []
  · rw [hroot]
    rfl
  · have halone : ∀ name, Text.splitAt '/' name = [name] →
        readSegment name = .ok (.field name) → locator.text = name →
          locator = [.field name] := fun _ =>
      eq_field_of_text hroot h.segments hfits
    have hempty : locator.text ≠ "" := by
      intro htext
      have hfield := h.segments (.field "")
      rw [halone "" rfl rfl htext] at hfield
      exact (hfield List.mem_cons_self).1 rfl
    have hquestion : locator.text ≠ "question" := fun htext =>
      h.apart (halone "question" (by decide +kernel) (by decide +kernel) htext)
    rw [read, if_neg (by simp [hempty, hquestion]), splitAt_text hroot h.segments,
      mapM_readSegment h.segments hfits]

end Locator

end SceneQuiz
