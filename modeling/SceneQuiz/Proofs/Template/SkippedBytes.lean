import Mathlib.Data.List.TakeWhile
import SceneQuiz.Template.MathMode
/-!
What skipped bytes can do to the text around them.  A scan looks at the bytes
of a delimiter from where it starts, skipped or not, so a delimiter that runs
into a skipped range is read with bytes that are not text.  Main statements:
two texts that differ only in skipped bytes are classified alike outside of
them if no delimiter of either runs into a skipped range, and not in general.
-/

namespace SceneQuiz.MathMode

variable {skip : List Position} {environments : List String}

theorem environmentAfter_eq_some_iff {opening : String} {rest name : List UInt8} :
    environmentAfter opening environments rest = some name ↔
      name ∈ environments.map Text.bytes ∧ (0x7d : UInt8) ∉ name ∧
        ∃ tail, rest = Text.bytes opening ++ (name ++ 0x7d :: tail) := by
  unfold environmentAfter
  constructor
  · intro h
    dsimp only at h
    split at h
    · next hopening =>
        obtain ⟨after, rfl⟩ := List.isPrefixOf_iff_prefix.mp hopening
        rw [List.drop_left] at h
        split at h
        · next hname =>
            cases h
            have hsplit := List.takeWhile_append_dropWhile
              (p := (· != (0x7d : UInt8))) (l := after)
            rcases hdrop : after.dropWhile (· != (0x7d : UInt8)) with _ | ⟨c, tail⟩
            · rw [hdrop, List.append_nil] at hsplit
              rw [hsplit] at hname
              exact absurd hname.1 (Nat.lt_irrefl _)
            · have hclose := List.head_dropWhile_not (· != (0x7d : UInt8))
                (l := after) (by simp [hdrop])
              simp only [hdrop, List.head_cons, bne_eq_false_iff_eq] at hclose
              rw [hdrop, hclose] at hsplit
              refine ⟨hname.2, fun hmem => ?_, tail, by rw [hsplit]⟩
              simpa using List.mem_takeWhile_imp hmem
        · cases h
    · cases h
  · rintro ⟨hknown, hfree, tail, rfl⟩
    have hname : (name ++ 0x7d :: tail).takeWhile (· != (0x7d : UInt8)) = name := by
      rw [List.takeWhile_append_of_pos]
      · simp
      · intro c hc
        exact bne_iff_ne.mpr fun heq => hfree (heq ▸ hc)
    dsimp only
    rw [if_pos (by simp), List.drop_left, hname]
    exact if_pos ⟨by simp, hknown⟩

theorem environmentAfter_written {opening : String} {name tail : List UInt8}
    (h : environmentAfter opening environments
      (Text.bytes opening ++ (name ++ 0x7d :: tail)) = some name)
    (tail' : List UInt8) :
    environmentAfter opening environments
      (Text.bytes opening ++ (name ++ 0x7d :: tail')) = some name := by
  obtain ⟨hknown, hfree, -⟩ := environmentAfter_eq_some_iff.mp h
  exact environmentAfter_eq_some_iff.mpr ⟨hknown, hfree, tail', rfl⟩

theorem token_begin (top : Option Delimiter) (rest : List UInt8) :
    token environments top (Text.bytes "\\begin\x7b" ++ rest) =
      match environmentAfter "\\begin\x7b" environments
        (Text.bytes "\\begin\x7b" ++ rest) with
      | some name => (name.length + 8, .opens (.environment name))
      | none => (1, .nothing) := rfl

theorem token_end (top : Option Delimiter) (rest : List UInt8) :
    token environments top (Text.bytes "\\end\x7b" ++ rest) =
      match environmentAfter "\\end\x7b" environments
        (Text.bytes "\\end\x7b" ++ rest) with
      | some name => (name.length + 6, closing top (.environment name))
      | none => (1, .nothing) := rfl

/-- A token of more than one byte is read wherever its bytes stand. -/
theorem exists_written {top : Option Delimiter} {rest : List UInt8}
    (hlong : 1 < (token environments top rest).1) :
    ∃ written tail, rest = written ++ tail ∧
      written.length = (token environments top rest).1 ∧
      ∀ tail', token environments top (written ++ tail') =
        token environments top rest := by
  revert hlong
  fun_cases token environments top rest with
  | case7 rest name hname =>
      intro _
      obtain ⟨-, -, tail, rfl⟩ := environmentAfter_eq_some_iff.mp hname
      refine ⟨Text.bytes "\\begin\x7b" ++ (name ++ [0x7d]), tail, by simp, ?_, ?_⟩
      · rw [hname, List.length_append, List.length_append, Nat.add_comm]
        rfl
      · intro tail'
        rw [List.append_assoc, List.append_assoc, List.singleton_append, token_begin,
          environmentAfter_written hname, hname]
  | case8 rest hbegin name hname =>
      intro _
      obtain ⟨-, -, tail, rfl⟩ := environmentAfter_eq_some_iff.mp hname
      refine ⟨Text.bytes "\\end\x7b" ++ (name ++ [0x7d]), tail, by simp, ?_, ?_⟩
      · rw [hbegin, hname, List.length_append, List.length_append, Nat.add_comm]
        rfl
      · intro tail'
        rw [List.append_assoc, List.append_assoc, List.singleton_append, token_end,
          environmentAfter_written hname, hbegin, hname]
  | case9 rest hbegin hend =>
      rw [hbegin, hend]
      exact fun hlong => absurd hlong (Nat.lt_irrefl _)
  | _ tail => exact fun _ => ⟨[_, _], tail, rfl, rfl, fun _ => rfl⟩

/-- What is open decides what a token does, not how long it is. -/
theorem token_length_eq (top top' : Option Delimiter) (rest : List UInt8) :
    (token environments top rest).1 = (token environments top' rest).1 := by
  unfold token
  split <;> try rfl
  cases environmentAfter "\\begin\x7b" environments _ with
  | some name => rfl
  | none => cases environmentAfter "\\end\x7b" environments _ <;> rfl

theorem token_of_short {top : Option Delimiter} {rest : List UInt8}
    (hshort : ¬ 1 < (token environments top rest).1) :
    token environments top rest = (1, .nothing) := by
  revert hshort
  fun_cases token environments top rest with
  | case7 rest name hname =>
      rw [hname]
      exact fun hshort => absurd (Nat.le_add_left 2 (name.length + 6)) hshort
  | case8 rest hbegin name hname =>
      rw [hbegin, hname]
      exact fun hshort => absurd (Nat.le_add_left 2 (name.length + 4)) hshort
  | case9 rest hbegin hend =>
      rw [hbegin, hend]
      exact fun _ => rfl
  | _ => exact fun hshort => absurd Nat.one_lt_two hshort

/-- Two backslashes stand at the front, a token that is no delimiter. -/
def startsBreak : List UInt8 → Bool
  | 0x5c :: 0x5c :: _ => true
  | _ => false

/-- A delimiter stands at the front. -/
def startsDelimiter (environments : List String) (rest : List UInt8) : Bool :=
  decide (1 < (token environments none rest).1) && !startsBreak rest

/-- The ranges of the delimiters that a scan reads from an offset on; the first
`pending` bytes belong to a token that has been read. -/
def delimitersFrom (skip : List Position) (environments : List String)
    (offset pending : Nat) : List UInt8 → List Position
  | [] => []
  | byte :: rest =>
      match pending with
      | more + 1 => delimitersFrom skip environments (offset + 1) more rest
      | 0 =>
          if isSkipped skip offset then
            delimitersFrom skip environments (offset + 1) 0 rest
          else
            let length := (token environments none (byte :: rest)).1
            (if startsDelimiter environments (byte :: rest) then
              [⟨offset, offset + length⟩] else []) ++
              delimitersFrom skip environments (offset + 1) (length - 1) rest

/-- The ranges of the delimiters that a scan of a source reads. -/
def delimiters (source : String) (skip : List Position)
    (environments : List String) : List Position :=
  delimitersFrom skip environments 0 0 (Text.bytes source)

/-- None of some ranges holds a skipped byte. -/
def Unskipped (skip ranges : List Position) : Prop :=
  ∀ range ∈ ranges, ∀ offset, range.covers offset = true →
    isSkipped skip offset = false

instance (skip ranges : List Position) : Decidable (Unskipped skip ranges) :=
  decidable_of_iff (∀ range ∈ ranges, ∀ offset ∈ List.range' range.start range.length,
      isSkipped skip offset = false) <| by
    refine forall₂_congr fun range _ => forall_congr' fun offset => ?_
    rw [List.mem_range'_1, Position.covers, Position.length, Bool.and_eq_true,
      decide_eq_true_eq, decide_eq_true_eq]
    exact imp_congr_left (by omega)

/-- A token that is no delimiter changes nothing. -/
theorem token_of_not_startsDelimiter {top : Option Delimiter} {rest : List UInt8}
    (h : startsDelimiter environments rest = false) :
    token environments top rest =
      if startsBreak rest then (2, .nothing) else (1, .nothing) := by
  unfold startsDelimiter at h
  fun_cases startsBreak rest with
  | case1 tail => rfl
  | case2 rest hrest =>
      refine token_of_short fun hlong => ?_
      rw [token_length_eq top none] at hlong
      simp [hlong, startsBreak] at h

/-- Two lists agree on what is not skipped; their first items stand at an
offset. -/
def SameOutside {α : Type} (skip : List Position) (offset : Nat) (one two : List α) :
    Prop :=
  ∀ i, isSkipped skip (offset + i) = false → one[i]? = two[i]?

/-- Two texts from an offset on, as long as each other. -/
def AgreeFrom (skip : List Position) (offset : Nat) (one two : List UInt8) : Prop :=
  one.length = two.length ∧ SameOutside skip offset one two

theorem AgreeFrom.symm {offset : Nat} {one two : List UInt8}
    (h : AgreeFrom skip offset one two) : AgreeFrom skip offset two one :=
  ⟨h.1.symm, fun i hi => (h.2 i hi).symm⟩

theorem AgreeFrom.tail {offset : Nat} {a b : UInt8} {one two : List UInt8}
    (h : AgreeFrom skip offset (a :: one) (b :: two)) :
    AgreeFrom skip (offset + 1) one two := by
  refine ⟨Nat.succ.inj h.1, fun i hi => ?_⟩
  rw [Nat.add_assoc, Nat.add_comm 1 i] at hi
  exact h.2 (i + 1) hi

/-- A delimiter of unskipped bytes stands in both texts. -/
theorem AgreeFrom.token_eq {offset : Nat} {one two : List UInt8}
    (h : AgreeFrom skip offset one two)
    (hstarts : startsDelimiter environments one = true)
    (hclear : Unskipped skip
      [⟨offset, offset + (token environments none one).1⟩])
    (top : Option Delimiter) :
    token environments top two = token environments top one := by
  have hlong : 1 < (token environments top one).1 := by
    rw [startsDelimiter, Bool.and_eq_true, decide_eq_true_eq] at hstarts
    rw [token_length_eq top none]
    exact hstarts.1
  rw [token_length_eq none top] at hclear
  obtain ⟨written, tail, rfl, hlength, htoken⟩ := exists_written hlong
  obtain ⟨tail', rfl⟩ : written <+: two := by
    refine List.prefix_iff_getElem?.mpr fun i hi => ?_
    rw [← h.2 i, List.getElem?_append_left hi, List.getElem?_eq_getElem hi]
    refine hclear _ List.mem_cons_self (offset + i) ?_
    simp only [Position.covers, Bool.and_eq_true, decide_eq_true_eq]
    omega
  exact htoken tail'

/-- How far two scans of such texts have read ahead: by the same token, or to
the end of a skipped byte at most. -/
def InStep (skip : List Position) (offset : Nat) (one two : Nat × Bool) : Prop :=
  one = two ∨ (one.1 = 0 ∧ two.1 = 0) ∨
    (isSkipped skip offset = true ∧ one.1 ≤ 1 ∧ two.1 ≤ 1)

theorem startsBreak_eq (list : List UInt8) :
    startsBreak list = (list[0]? == some 0x5c && list[1]? == some 0x5c) := by
  fun_cases startsBreak list with
  | case1 tail => rfl
  | case2 list hlist =>
      rcases list with _ | ⟨a, _ | ⟨b, list⟩⟩
      · rfl
      · simp
      · by_cases ha : a = 0x5c
        · by_cases hb : b = 0x5c
          · subst ha hb
            exact absurd rfl (hlist list)
          · simp [hb]
        · simp [ha]

/-- Tokens that are no delimiters differ only in whether they take up a second
backslash, which is then a skipped byte. -/
theorem AgreeFrom.plain_inStep {offset : Nat} {one two : List UInt8}
    (h : AgreeFrom skip offset one two) (hoffset : isSkipped skip offset = false)
    (inside : Bool) :
    InStep skip (offset + 1) ((if startsBreak one then 1 else 0), inside)
      ((if startsBreak two then 1 else 0), inside) := by
  cases hnext : isSkipped skip (offset + 1) with
  | true => exact .inr (.inr ⟨hnext, by split <;> simp, by split <;> simp⟩)
  | false =>
      have hbreak : startsBreak one = startsBreak two := by
        rw [startsBreak_eq, startsBreak_eq, h.2 0 hoffset, h.2 1 hnext]
      rw [hbreak]
      exact .inl rfl

section Steps

variable {offset : Nat} {byte : UInt8} {rest : List UInt8} {inside : Bool}
  {stack : List Delimiter}

theorem scanFrom_pending (more : Nat) :
    scanFrom skip environments offset (more + 1) inside stack (byte :: rest) =
      inside :: scanFrom skip environments (offset + 1) more inside stack rest := rfl

/-- At a skipped byte a scan that has read no further looks for no token. -/
theorem scanFrom_skipped (hoffset : isSkipped skip offset = true) {pending : Nat}
    (hpending : pending ≤ 1) :
    ∃ head, scanFrom skip environments offset pending inside stack (byte :: rest) =
      head :: scanFrom skip environments (offset + 1) 0 inside stack rest := by
  rcases Nat.le_one_iff_eq_zero_or_eq_one.mp hpending with rfl | rfl
  · exact ⟨!stack.isEmpty, by rw [scanFrom, if_pos hoffset]⟩
  · exact ⟨inside, rfl⟩

theorem scanFrom_token (hoffset : isSkipped skip offset = false) :
    scanFrom skip environments offset 0 inside stack (byte :: rest) =
      (token environments stack.head? (byte :: rest)).2.isInside stack ::
        scanFrom skip environments (offset + 1)
          ((token environments stack.head? (byte :: rest)).1 - 1)
          ((token environments stack.head? (byte :: rest)).2.isInside stack)
          ((token environments stack.head? (byte :: rest)).2.apply stack) rest := by
  rw [scanFrom, if_neg (by simp [hoffset])]

theorem delimitersFrom_skipped (hoffset : isSkipped skip offset = true)
    {pending : Nat} (hpending : pending ≤ 1) :
    delimitersFrom skip environments offset pending (byte :: rest) =
      delimitersFrom skip environments (offset + 1) 0 rest := by
  rcases Nat.le_one_iff_eq_zero_or_eq_one.mp hpending with rfl | rfl
  · rw [delimitersFrom, if_pos hoffset]
  · rfl

theorem delimitersFrom_token (hoffset : isSkipped skip offset = false)
    (top : Option Delimiter) :
    delimitersFrom skip environments offset 0 (byte :: rest) =
      (if startsDelimiter environments (byte :: rest) then
        [⟨offset, offset + (token environments top (byte :: rest)).1⟩] else []) ++
        delimitersFrom skip environments (offset + 1)
          ((token environments top (byte :: rest)).1 - 1) rest := by
  rw [delimitersFrom, if_neg (by simp [hoffset])]
  simp only [token_length_eq none top]

end Steps

/-- Where both scans look for a token, they find the same change and stay in
step. -/
theorem token_inStep {offset : Nat} {a b : UInt8} {one two : List UInt8}
    (hagree : AgreeFrom skip offset (a :: one) (b :: two))
    (hoffset : isSkipped skip offset = false)
    (hone : Unskipped skip (delimitersFrom skip environments offset 0 (a :: one)))
    (htwo : Unskipped skip (delimitersFrom skip environments offset 0 (b :: two)))
    (top : Option Delimiter) :
    (token environments top (b :: two)).2 = (token environments top (a :: one)).2 ∧
      ∀ inside : Bool, InStep skip (offset + 1)
        ((token environments top (a :: one)).1 - 1, inside)
        ((token environments top (b :: two)).1 - 1, inside) := by
  rw [delimitersFrom_token hoffset none] at hone htwo
  have hown : ∀ {ranges others : List Position},
      Unskipped skip (ranges ++ others) → Unskipped skip ranges :=
    fun h range hrange => h range (List.mem_append_left _ hrange)
  cases hstarts : startsDelimiter environments (a :: one) with
  | true =>
      rw [hstarts, if_pos rfl] at hone
      have htoken := hagree.token_eq hstarts (hown hone) top
      rw [htoken]
      exact ⟨rfl, fun _ => .inl rfl⟩
  | false =>
      cases hother : startsDelimiter environments (b :: two) with
      | true =>
          rw [hother, if_pos rfl] at htwo
          have htoken := hagree.symm.token_eq hother (hown htwo) top
          rw [htoken]
          exact ⟨rfl, fun _ => .inl rfl⟩
      | false =>
          have hplain := hagree.plain_inStep hoffset
          rw [token_of_not_startsDelimiter hstarts, token_of_not_startsDelimiter hother]
          refine ⟨by split <;> split <;> rfl, fun inside => ?_⟩
          have hinside := hplain inside
          split <;> split <;> simp_all

theorem SameOutside.cons {offset : Nat} {a b : Bool} {one two : List Bool}
    (hhead : isSkipped skip offset = false → a = b)
    (htail : SameOutside skip (offset + 1) one two) :
    SameOutside skip offset (a :: one) (b :: two) := by
  intro i hi
  cases i with
  | zero => exact congrArg some (hhead hi)
  | succ i =>
      rw [← Nat.add_assoc, Nat.add_right_comm] at hi
      exact htail i hi

/-- Two scans in step classify alike what is not skipped, each of them inside of one
token, before the next one, or on a skipped byte. -/
theorem scanFrom_inStep (one : List UInt8) :
    ∀ {two : List UInt8} {offset p q : Nat} {inOne inTwo : Bool}
      {stack : List Delimiter},
      AgreeFrom skip offset one two →
      Unskipped skip (delimitersFrom skip environments offset p one) →
      Unskipped skip (delimitersFrom skip environments offset q two) →
      InStep skip offset (p, inOne) (q, inTwo) →
      SameOutside skip offset
        (scanFrom skip environments offset p inOne stack one)
        (scanFrom skip environments offset q inTwo stack two) := by
  induction one with
  | nil =>
      intro two offset p q inOne inTwo stack hagree _ _ _ i _
      rw [List.length_eq_zero_iff.mp hagree.1.symm]
      rfl
  | cons a one ih =>
      intro two offset p q inOne inTwo stack hagree hone htwo hstep
      rcases two with _ | ⟨b, two⟩
      · exact absurd hagree.1 (by simp)
      have hpassed : isSkipped skip offset = true → p ≤ 1 → q ≤ 1 →
          SameOutside skip offset
            (scanFrom skip environments offset p inOne stack (a :: one))
            (scanFrom skip environments offset q inTwo stack (b :: two)) := by
        intro hoffset hp hq
        rw [delimitersFrom_skipped hoffset hp] at hone
        rw [delimitersFrom_skipped hoffset hq] at htwo
        obtain ⟨_, hscanOne⟩ := scanFrom_skipped hoffset hp
        obtain ⟨_, hscanTwo⟩ := scanFrom_skipped hoffset hq
        rw [hscanOne, hscanTwo]
        exact .cons (fun hunskipped => by simp [hoffset] at hunskipped)
          (ih hagree.tail hone htwo (.inr (.inl ⟨rfl, rfl⟩)))
      have hfresh : p = 0 → q = 0 → SameOutside skip offset
          (scanFrom skip environments offset p inOne stack (a :: one))
          (scanFrom skip environments offset q inTwo stack (b :: two)) := by
        rintro rfl rfl
        cases hoffset : isSkipped skip offset with
        | true => exact hpassed hoffset (Nat.zero_le 1) (Nat.zero_le 1)
        | false =>
            obtain ⟨hchange, hnext⟩ := token_inStep hagree hoffset hone htwo stack.head?
            rw [delimitersFrom_token hoffset stack.head?] at hone htwo
            rw [scanFrom_token hoffset, scanFrom_token hoffset, hchange]
            exact .cons (fun _ => rfl) (ih hagree.tail
              (fun range hrange => hone range (List.mem_append_right _ hrange))
              (fun range hrange => htwo range (List.mem_append_right _ hrange)) (hnext _))
      rcases hstep with hsame | ⟨hp, hq⟩ | ⟨hoffset, hp, hq⟩
      · cases hsame
        cases p with
        | zero => exact hfresh rfl rfl
        | succ more =>
            rw [scanFrom_pending, scanFrom_pending]
            exact .cons (fun _ => rfl) (ih hagree.tail hone htwo (.inl rfl))
      · exact hfresh hp hq
      · exact hpassed hoffset hp hq

/-- Two texts of one length that agree on every byte that is not skipped are
classified alike on these bytes, if no delimiter that is read in either of them
runs into a skipped range. -/
theorem scan_agrees_outside (skip : List Position) (environments : List String)
    (one two : String) (hlength : (Text.bytes one).length = (Text.bytes two).length)
    (hagree : ∀ offset, isSkipped skip offset = false →
      (Text.bytes one)[offset]? = (Text.bytes two)[offset]?)
    (hone : Unskipped skip (delimiters one skip environments))
    (htwo : Unskipped skip (delimiters two skip environments)) :
    ∀ offset, isSkipped skip offset = false →
      (scan one skip environments)[offset]? = (scan two skip environments)[offset]? := by
  have hstart : AgreeFrom skip 0 (Text.bytes one) (Text.bytes two) :=
    ⟨hlength, fun i hi => hagree i (by rw [Nat.zero_add] at hi; exact hi)⟩
  intro offset hoffset
  rw [← Nat.zero_add offset] at hoffset
  exact scanFrom_inStep (Text.bytes one) hstart hone htwo (.inl rfl) offset hoffset

/-- Past their ends two texts agree anyway. -/
theorem agree_of_below {one two : String} (length : Nat)
    (hone : (Text.bytes one).length = length) (htwo : (Text.bytes two).length = length)
    (hbelow : ∀ offset < length, isSkipped skip offset = false →
      (Text.bytes one)[offset]? = (Text.bytes two)[offset]?) :
    ∀ offset, isSkipped skip offset = false →
      (Text.bytes one)[offset]? = (Text.bytes two)[offset]? := by
  intro offset hoffset
  by_cases hlt : offset < length
  · exact hbelow offset hlt hoffset
  · rw [List.getElem?_eq_none (by omega), List.getElem?_eq_none (by omega)]

/-- Formulas around a comment that holds an opening delimiter. -/
def formulasAroundComment : String := "\\(a\\)[[comment]]\\(x[[/comment]] b \\[c\\]"

/-- The same with another comment. -/
def formulasAroundOther : String := "\\(a\\)[[comment]]$$y[[/comment]] b \\[c\\]"

theorem formulasAroundComment_agree :
    Unskipped [⟨5, 31⟩] (delimiters formulasAroundComment [⟨5, 31⟩] []) ∧
      Unskipped [⟨5, 31⟩] (delimiters formulasAroundOther [⟨5, 31⟩] []) ∧
      ∀ offset, isSkipped [⟨5, 31⟩] offset = false →
        (scan formulasAroundComment [⟨5, 31⟩] [])[offset]? =
          (scan formulasAroundOther [⟨5, 31⟩] [])[offset]? := by
  have hone : Unskipped [⟨5, 31⟩] (delimiters formulasAroundComment [⟨5, 31⟩] []) := by
    decide +kernel
  have htwo : Unskipped [⟨5, 31⟩] (delimiters formulasAroundOther [⟨5, 31⟩] []) := by
    decide +kernel
  refine ⟨hone, htwo, scan_agrees_outside _ _ _ _ (by decide +kernel) ?_ hone htwo⟩
  exact agree_of_below 39 (by decide +kernel) (by decide +kernel) (by decide +kernel)

/-- A backslash right before a comment. -/
def backslashBeforeComment : String := "\\[[comment]]x[[/comment]] b"

/-- The same with another first byte of the comment. -/
def backslashBeforeOther : String := "\\ [comment]]x[[/comment]] b"

/-- The backslash and the first byte of the comment are read as a delimiter, so
skipped bytes decide how the text after the comment is classified. -/
theorem scan_reads_skipped : ¬ ∀ (skip : List Position) (environments : List String)
    (one two : String), (Text.bytes one).length = (Text.bytes two).length →
    (∀ offset, isSkipped skip offset = false →
      (Text.bytes one)[offset]? = (Text.bytes two)[offset]?) →
    ∀ offset, isSkipped skip offset = false →
      (scan one skip environments)[offset]? = (scan two skip environments)[offset]? := by
  intro h
  have hagree : ∀ offset, isSkipped [⟨1, 25⟩] offset = false →
      (Text.bytes backslashBeforeComment)[offset]? =
        (Text.bytes backslashBeforeOther)[offset]? :=
    agree_of_below 27 (by decide +kernel) (by decide +kernel) (by decide +kernel)
  have hsame := h [⟨1, 25⟩] [] _ _ (by decide +kernel) hagree 26 (by decide)
  revert hsame
  decide +kernel

end SceneQuiz.MathMode
