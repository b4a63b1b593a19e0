import Mathlib.Data.List.Induction
import Mathlib.Data.List.TakeWhile
import Mathlib.Data.String.Basic
import SceneQuiz.Source
/-!
Places counted on the text itself: the line after some characters by the line
breaks among them, the column by the characters since the last one.  Where a
character starts, the location is that count.  A span ends at the location of its
last byte, so its last column is that count exactly if the last character is a
single byte.  A line is a stretch without line breaks that stands between two of
them, or between one and an end of the text, and it is numbered by the line breaks
before it.
-/

namespace SceneQuiz

namespace Source

open String (utf8Len)

/-- What stands before the next character on its line. -/
def lastLine (before : List Char) : List Char :=
  (before.reverse.takeWhile (· != '\n')).reverse

/-- The line of the next character. -/
def lineAfter (before : List Char) : Nat := before.count '\n' + 1

/-- The column of the next character. -/
def columnAfter (before : List Char) : Nat := (lastLine before).length + 1

theorem lastLine_break (before : List Char) : lastLine (before ++ ['\n']) = [] := by
  simp [lastLine]

theorem lastLine_char (before : List Char) {c : Char} (hc : c ≠ '\n') :
    lastLine (before ++ [c]) = lastLine before ++ [c] := by
  simp [lastLine, hc]

theorem lineAfter_break (before : List Char) :
    lineAfter (before ++ ['\n']) = lineAfter before + 1 := by
  simp [lineAfter]

theorem lineAfter_char (before : List Char) {c : Char} (hc : c ≠ '\n') :
    lineAfter (before ++ [c]) = lineAfter before := by
  rw [lineAfter, List.count_append, List.count_singleton, if_neg (by simpa using hc)]
  rfl

/-- The walk passes a character by its whole width. -/
theorem locate_cons (line column width : Nat) (c : Char) (rest : List Char) (offset : Nat) :
    locate line column width (c :: rest) (c.utf8Size + offset) =
      if c = '\n' then locate (line + 1) 1 1 rest offset
      else locate line (column + 1) (width + c.utf8Size) rest offset := by
  have hwidth := c.utf8Size_pos
  rw [locate, if_neg (by omega), if_neg (by omega), Nat.add_sub_cancel_left]

/-- The walk through a text comes past what stands before a place. -/
theorem locate_append (before rest : List Char) (offset : Nat) :
    locate 1 1 1 (before ++ rest) (utf8Len before + offset) =
      locate (lineAfter before) (columnAfter before) (utf8Len (lastLine before) + 1) rest
        offset := by
  induction before using List.reverseRecOn generalizing rest offset with
  | nil => simp [lineAfter, columnAfter, lastLine]
  | append_singleton before c ih =>
      rw [List.append_assoc, List.singleton_append, String.utf8Len_append, Nat.add_assoc, ih,
        String.utf8Len_cons, String.utf8Len_nil, Nat.zero_add, locate_cons]
      by_cases hc : c = '\n'
      · rw [if_pos hc, hc, lineAfter_break, columnAfter, lastLine_break]
        rfl
      · rw [if_neg hc, lineAfter_char before hc, columnAfter, columnAfter,
          lastLine_char before hc, List.length_append, String.utf8Len_append,
          Nat.add_right_comm (utf8Len (lastLine before)), String.utf8Len_cons,
          String.utf8Len_nil, Nat.zero_add, List.length_singleton]

/-- Where a character starts, or the text ends, the location counts characters. -/
theorem location_of_append {source : String} {before rest : List Char}
    (hsource : source.toList = before ++ rest) :
    location source (utf8Len before) = (lineAfter before, columnAfter before) := by
  rw [location, hsource, ← Nat.add_zero (utf8Len before), locate_append]
  cases rest with
  | nil => rfl
  | cons c rest => rw [locate, if_pos rfl]

/-- The last byte of a character is located by bytes, unless it is the first one. -/
theorem location_lastByte {source : String} {before rest : List Char} {c : Char}
    (hsource : source.toList = before ++ c :: rest) :
    location source (utf8Len before + (c.utf8Size - 1)) = (lineAfter before,
      if c.utf8Size = 1 then columnAfter before
      else utf8Len (lastLine before) + c.utf8Size) := by
  have hwidth := c.utf8Size_pos
  rw [location, hsource, locate_append, locate]
  by_cases hone : c.utf8Size = 1
  · rw [if_pos (by omega), if_pos hone]
  · rw [if_neg (by omega), if_pos (by omega), if_neg hone, Nat.add_assoc,
      Nat.add_sub_cancel' hwidth]

/-- The span from the character after `first` to the character after `last`. -/
def spanBetween (first last : List Char) : Span :=
  ⟨lineAfter first, columnAfter first, lineAfter last, columnAfter last⟩

/-- The bytes of a line are not fewer than its characters. -/
theorem length_le_utf8Len (cs : List Char) : cs.length ≤ utf8Len cs := by
  induction cs with
  | nil => exact Nat.le_refl _
  | cons c cs ih => exact Nat.add_le_add ih c.utf8Size_pos

/-- The span of the characters `inside` and `last`: it starts at the first and ends on
the line of the last one.  It ends at the column of the last one if that is a single
byte, else as many columns in as the line has bytes up to the end of that character,
which is always too far. -/
theorem spanOf_characters (before inside after : List Char) (last : Char) :
    spanOf (String.ofList (before ++ inside ++ last :: after))
        ⟨utf8Len before, utf8Len (before ++ inside ++ [last])⟩ =
      { spanBetween before (before ++ inside) with
        endColumn := if last.utf8Size = 1 then columnAfter (before ++ inside)
          else utf8Len (lastLine (before ++ inside)) + last.utf8Size } ∧
    (spanOf (String.ofList (before ++ inside ++ last :: after))
        ⟨utf8Len before, utf8Len (before ++ inside ++ [last])⟩ =
      spanBetween before (before ++ inside) ↔ last.utf8Size = 1) := by
  have hwidth := last.utf8Size_pos
  have htext : (String.ofList (before ++ inside ++ last :: after)).toList =
      before ++ inside ++ last :: after := String.toList_ofList
  have hbytes : utf8Len (before ++ inside ++ [last]) =
      utf8Len before + (utf8Len inside + last.utf8Size) := by simp
  have hstop : max (utf8Len (before ++ inside ++ [last])) (utf8Len before + 1) - 1 =
      utf8Len (before ++ inside) + (last.utf8Size - 1) := by
    rw [hbytes, String.utf8Len_append]
    omega
  have hspan : spanOf (String.ofList (before ++ inside ++ last :: after))
      ⟨utf8Len before, utf8Len (before ++ inside ++ [last])⟩ =
      { spanBetween before (before ++ inside) with
        endColumn := if last.utf8Size = 1 then columnAfter (before ++ inside)
          else utf8Len (lastLine (before ++ inside)) + last.utf8Size } := by
    rw [spanOf, hstop, location_lastByte htext,
      location_of_append (htext.trans (List.append_assoc before inside (last :: after)))]
    rfl
  refine ⟨hspan, ?_⟩
  rw [hspan]
  constructor
  · intro hagrees
    have hcolumn := congrArg Span.endColumn hagrees
    by_contra hwide
    have hshort := length_le_utf8Len (lastLine (before ++ inside))
    simp only [spanBetween, columnAfter, if_neg hwide] at hcolumn
    omega
  · intro hone
    rw [if_pos hone]
    rfl

/-- The span of a single character of two bytes ends one column too far. -/
theorem spanOf_accented_too_far :
    spanOf (String.ofList ['é']) ⟨utf8Len [], utf8Len ['é']⟩ ≠ spanBetween [] [] := by
  decide

end Source

namespace Text

theorem splitChars_sep (sep : Char) (above below : List Char) :
    splitChars sep (above ++ sep :: below) = splitChars sep above ++ splitChars sep below := by
  induction above with
  | nil => simp [splitChars]
  | cons c above ih =>
      rw [List.cons_append, splitChars, splitChars, ih]
      split
      · rfl
      · cases h : splitChars sep above with
        | nil => exact absurd h (splitChars_ne_nil sep above)
        | cons piece pieces => rfl

theorem splitChars_of_not_mem {sep : Char} {line : List Char} (h : sep ∉ line) :
    splitChars sep line = [line] := by
  induction line with
  | nil => rfl
  | cons c line ih =>
      obtain ⟨hc, hline⟩ := List.ne_and_not_mem_of_not_mem_cons h
      rw [splitChars, if_neg (Ne.symm hc), ih hline]

end Text

namespace Source

/-- The text has this line, without its line break, at this number. -/
structure IsLine (source : String) (number : Nat) (line above below : List Char) : Prop where
  text : source.toList = above ++ line ++ below
  number : number = above.count '\n' + 1
  single : '\n' ∉ line
  starts : ∀ c ∈ above.getLast?, c = '\n'
  ends : ∀ c ∈ below.head?, c = '\n'

/-- What stands before a line gives one piece for each line break. -/
theorem splitChars_above {above line : List Char} (hstarts : ∀ c ∈ above.getLast?, c = '\n') :
    ∃ pieces, pieces.length = above.count '\n' ∧
      Text.splitChars '\n' (above ++ line) = pieces ++ Text.splitChars '\n' line := by
  rcases List.eq_nil_or_concat above with rfl | ⟨above, c, rfl⟩
  · exact ⟨[], rfl, rfl⟩
  · obtain rfl : c = '\n' := hstarts c (by simp)
    refine ⟨Text.splitChars '\n' above, ?_, ?_⟩
    · rw [Text.length_splitChars, List.concat_eq_append, List.count_append]
      rfl
    · rw [List.concat_eq_append, List.append_assoc, List.singleton_append,
        Text.splitChars_sep]

theorem splitChars_below {line below : List Char} (hline : '\n' ∉ line)
    (hends : ∀ c ∈ below.head?, c = '\n') :
    ∃ pieces, Text.splitChars '\n' (line ++ below) = line :: pieces := by
  cases below with
  | nil => exact ⟨[], by rw [List.append_nil, Text.splitChars_of_not_mem hline]⟩
  | cons c below =>
      obtain rfl : c = '\n' := hends c rfl
      exact ⟨Text.splitChars '\n' below, by
        rw [Text.splitChars_sep, Text.splitChars_of_not_mem hline, List.singleton_append]⟩

/-- The line of a number is shown without the carriage returns at its end. -/
theorem IsLine.line?_eq {source : String} {number : Nat} {line above below : List Char}
    (h : IsLine source number line above below) :
    line? source number = some (String.ofList (dropReturns line)) := by
  obtain ⟨pieces, hlength, hpieces⟩ := @splitChars_above above (line ++ below) h.starts
  obtain ⟨more, hmore⟩ := splitChars_below h.single h.ends
  rw [line?, if_neg (by rw [h.number]; exact Nat.succ_ne_zero _), h.number,
    Nat.add_sub_cancel, lines, h.text, List.append_assoc, hpieces, hmore, ← hlength,
    List.getElem?_append_right (Nat.le_refl _), Nat.sub_self]
  rfl

/-- Every place of a text is on a line. -/
theorem isLine_of_append {source : String} {before rest : List Char}
    (hsource : source.toList = before ++ rest) :
    IsLine source (lineAfter before) (lastLine before ++ rest.takeWhile (· != '\n'))
      (before.reverse.dropWhile (· != '\n')).reverse (rest.dropWhile (· != '\n')) := by
  have hbefore : (before.reverse.dropWhile (· != '\n')).reverse ++ lastLine before = before := by
    rw [lastLine, ← List.reverse_append, List.takeWhile_append_dropWhile, List.reverse_reverse]
  have hlast : '\n' ∉ lastLine before := by
    intro hmem
    have hkept := List.mem_takeWhile_imp (List.mem_reverse.mp hmem)
    simp at hkept
  have hfirst : '\n' ∉ rest.takeWhile (· != '\n') := by
    intro hmem
    have hkept := List.mem_takeWhile_imp hmem
    simp at hkept
  have hhead : ∀ cs : List Char, ∀ c ∈ (cs.dropWhile (· != '\n')).head?, c = '\n' := by
    intro cs c hc
    have hkept := List.head?_dropWhile_not (· != '\n') cs
    rw [hc] at hkept
    simpa using hkept
  refine ⟨?_, ?_, ?_, ?_, hhead rest⟩
  · rw [hsource, ← List.append_assoc, hbefore, List.append_assoc,
      List.takeWhile_append_dropWhile]
  · rw [lineAfter]
    conv_lhs => rw [← hbefore]
    rw [List.count_append, List.count_eq_zero.mpr hlast, Nat.add_zero]
  · rw [List.mem_append, not_or]
    exact ⟨hlast, hfirst⟩
  · rw [List.getLast?_reverse]
    exact hhead before.reverse

end Source

end SceneQuiz
