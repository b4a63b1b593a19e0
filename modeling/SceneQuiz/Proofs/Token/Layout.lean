import SceneQuiz.Proofs.Diagnostic.Stored
import SceneQuiz.Proofs.Source.Location
import SceneQuiz.Proofs.Token.Lookahead
/-!
Where the tokens of a text stand.  The scan carries a place along, one character
after the other.  After each step that place is the location of the text that is left,
so a token starts at the location of its first byte, and a token that comes later
stands further on.  An issue shows the line that it starts on.
-/

namespace SceneQuiz

open String (utf8Len)

namespace Place

instance : LE Place :=
  ⟨fun p q => p.line < q.line ∨ p.line = q.line ∧ p.column ≤ q.column⟩

instance : LT Place :=
  ⟨fun p q => p.line < q.line ∨ p.line = q.line ∧ p.column < q.column⟩

theorem le_def {p q : Place} :
    p ≤ q ↔ p.line < q.line ∨ p.line = q.line ∧ p.column ≤ q.column := Iff.rfl

theorem lt_def {p q : Place} :
    p < q ↔ p.line < q.line ∨ p.line = q.line ∧ p.column < q.column := Iff.rfl

theorem le_refl (p : Place) : p ≤ p := .inr ⟨rfl, Nat.le_refl _⟩

theorem lt_irrefl (p : Place) : ¬ p < p := by
  rw [lt_def]
  omega

theorem le_of_lt {p q : Place} (h : p < q) : p ≤ q := by
  rw [le_def]
  rw [lt_def] at h
  omega

theorem le_trans {p q r : Place} (hpq : p ≤ q) (hqr : q ≤ r) : p ≤ r := by
  rw [le_def] at *
  omega

theorem lt_of_lt_of_le {p q r : Place} (hpq : p < q) (hqr : q ≤ r) : p < r := by
  rw [le_def] at hqr
  rw [lt_def] at *
  omega

theorem lt_next (p : Place) (c : Char) : p < p.next c := by
  unfold next
  split
  · exact .inl (Nat.lt_succ_self _)
  · exact .inr ⟨rfl, Nat.lt_succ_self _⟩

theorem le_after (p : Place) (cs : List Char) : p ≤ p.after cs := by
  induction cs generalizing p with
  | nil => exact le_refl p
  | cons c cs ih => exact le_trans (le_of_lt (p.lt_next c)) (ih (p.next c))

theorem lt_after (p : Place) (c : Char) (cs : List Char) : p < p.after (c :: cs) :=
  lt_of_lt_of_le (p.lt_next c) (le_after _ cs)

theorem after_append (p : Place) (one two : List Char) :
    p.after (one ++ two) = (p.after one).after two := List.foldl_append

end Place

/-- Where a span starts. -/
def Span.start (span : Span) : Place := ⟨span.line, span.column⟩

/-- Where the last character of a span stands. -/
def Span.stop (span : Span) : Place := ⟨span.endLine, span.endColumn⟩

theorem Place.start_le_stop {place stop : Place} (h : place < stop) :
    (place.spanTo stop).start ≤ (place.spanTo stop).stop := by
  rw [lt_def] at h
  rw [le_def]
  simp only [Span.start, Span.stop, spanTo]
  omega

namespace Lexer

/-- Where a text goes on after these characters. -/
def placeAfter (before : List Char) : Place := Place.after ⟨1, 1⟩ before

theorem placeAfter_append (before more : List Char) :
    placeAfter (before ++ more) = (placeAfter before).after more := Place.after_append _ _ _

/-- Going on character by character comes to the line and the column of the text. -/
theorem placeAfter_eq (before : List Char) :
    placeAfter before = ⟨Source.lineAfter before, Source.columnAfter before⟩ := by
  induction before using List.reverseRecOn with
  | nil => rfl
  | append_singleton before c ih =>
      rw [placeAfter_append, ih]
      show Place.next _ c = _
      by_cases hc : c = '\n'
      · rw [Place.next, if_pos hc, hc, Source.lineAfter_break,
          Source.columnAfter.eq_1 (before ++ ['\n']), Source.lastLine_break]
        rfl
      · rw [Place.next, if_neg hc, Source.lineAfter_char before hc, Source.columnAfter,
          Source.columnAfter, Source.lastLine_char before hc, List.length_append]
        rfl

/-- Where the text goes on, the location of its next byte is that place. -/
theorem location_placeAfter {source : String} {before rest : List Char}
    (hsource : source.toList = before ++ rest) :
    Source.location source (utf8Len before) =
      ((placeAfter before).line, (placeAfter before).column) := by
  rw [Source.location_of_append hsource, placeAfter_eq]

/-- Every step takes up the text from its first character on. -/
theorem scan_split (depth : Nat) (c : Char) (cs : List Char) :
    (scan depth c cs).taken ++ (scan depth c cs).rest = c :: cs := by
  obtain ⟨more, htaken, hrest⟩ := (scan_fits depth c cs).split
  rw [htaken, List.cons_append, hrest]

/-- After `before`, from this bracket depth on and after a token that can end an
operand or not, the text gives this result. -/
inductive Laid : (depth : Nat) → (operand : Bool) → (before rest : List Char) → Result → Prop
  /-- At the end of the text, or where the rest of it is given up. -/
  | stop {depth : Nat} {operand : Bool} {before rest : List Char} :
      Laid depth operand before rest (.finish (placeAfter before))
  | blank {depth : Nat} {operand : Bool} {before : List Char} {c : Char} {cs : List Char}
      {result : Result} : isBlank c = true → Laid depth operand (before ++ [c]) cs result →
      Laid depth operand before (c :: cs) result
  | step {depth : Nat} {operand : Bool} {before : List Char} {c : Char} {cs : List Char}
      {result : Result} : isBlank c = false →
      Laid (scan depth c cs).depth
        ((keep operand (scan depth c cs).lexeme).elim operand Lexeme.endsOperand)
        (before ++ (scan depth c cs).taken) (scan depth c cs).rest result →
      Laid depth operand before (c :: cs)
        (result.record (keep operand (scan depth c cs).lexeme) (scan depth c cs).fault
          ((placeAfter before).spanTo (placeAfter (before ++ (scan depth c cs).taken))))

theorem run_laid (fuel budget depth : Nat) (operand : Bool) (before rest : List Char) :
    Laid depth operand before rest (run fuel budget depth operand (placeAfter before) rest) := by
  induction fuel generalizing budget depth operand before rest with
  | zero => exact .stop
  | succ fuel ih =>
      cases budget with
      | zero => exact .stop
      | succ budget =>
          cases rest with
          | nil => exact .stop
          | cons c cs =>
              cases hblank : isBlank c with
              | true =>
                  have hrest := ih (budget + 1) depth operand (before ++ [c]) cs
                  rw [placeAfter_append] at hrest
                  rw [run, if_pos hblank]
                  exact .blank hblank hrest
              | false =>
                  rw [run_cons hblank, ← placeAfter_append]
                  exact .step hblank (ih _ _ _ _ _)

/-- Each issue of a run takes from its budget. -/
theorem run_issues_length (fuel budget depth : Nat) (operand : Bool) (place : Place)
    (rest : List Char) : (run fuel budget depth operand place rest).issues.length ≤ budget := by
  induction fuel generalizing budget depth operand place rest with
  | zero => exact Nat.zero_le _
  | succ fuel ih =>
      cases budget with
      | zero => exact Nat.zero_le _
      | succ budget =>
          cases rest with
          | nil => exact Nat.zero_le _
          | cons c cs =>
              cases hblank : isBlank c with
              | true =>
                  rw [run, if_pos hblank]
                  exact ih _ _ _ _ _
              | false =>
                  rw [run_cons hblank, Result.record, List.length_append]
                  cases (scan depth c cs).fault with
                  | none => exact Nat.le_trans (Nat.le_of_eq (Nat.zero_add _)) (ih _ _ _ _ _)
                  | some fault =>
                      exact (Nat.add_comm _ _).trans_le (Nat.succ_le_succ (ih _ _ _ _ _))

/-- The token is what the scan finds at this byte of the text, and it is located
there. -/
structure StandsAt (source : String) (token : Token) (offset : Nat) : Prop where
  scanned : ∃ before c rest depth, source.toList = before ++ c :: rest ∧
    offset = utf8Len before ∧ isBlank c = false ∧
    (scan depth c rest).lexeme = some token.lexeme
  located : (token.span.line, token.span.column) = Source.location source offset

theorem StandsAt.inside {source : String} {token : Token} {offset : Nat}
    (h : StandsAt source token offset) : token.lexeme ≠ .endOfInput := by
  obtain ⟨before, c, rest, depth, -, -, -, hlexeme⟩ := h.scanned
  intro hend
  rw [hend] at hlexeme
  exact (scan_fits depth c rest).inside hlexeme

theorem inside_of_stand {source : String} {tokens : List Token} {offsets : List Nat}
    (h : List.Forall₂ (StandsAt source) tokens offsets) :
    ∀ token ∈ tokens, token.lexeme ≠ .endOfInput := by
  induction h with
  | nil => exact nofun
  | cons htoken _ ih =>
      intro token hmem
      rcases List.mem_cons.mp hmem with rfl | hmem
      · exact htoken.inside
      · exact ih token hmem

namespace Laid

variable {source : String} {depth : Nat} {operand : Bool} {before rest : List Char}
  {result : Result}

/-- The end of the input comes last, and the other tokens stand one after the other
in what is left of the text. -/
theorem stands (h : Laid depth operand before rest result)
    (hsource : source.toList = before ++ rest) :
    ∃ init last offsets, result.tokens = init ++ [last] ∧ last.lexeme = Lexeme.endOfInput ∧
      List.Forall₂ (StandsAt source) init offsets ∧
      (∀ offset ∈ offsets, utf8Len before ≤ offset) ∧ offsets.Pairwise (· < ·) := by
  induction h with
  | stop => exact ⟨[], _, [], rfl, rfl, .nil, nofun, .nil⟩
  | @blank depth operand before c cs result _ _ ih =>
      obtain ⟨init, last, offsets, htokens, hlast, hstands, hfrom, hsorted⟩ :=
        ih (hsource.trans (by simp))
      refine ⟨init, last, offsets, htokens, hlast, hstands, fun offset hoffset => ?_, hsorted⟩
      have hoffset := hfrom offset hoffset
      rw [String.utf8Len_append] at hoffset
      exact Nat.le_trans (Nat.le_add_right _ _) hoffset
  | @step depth operand before c cs result hblank _ ih =>
      have hsplit := scan_split depth c cs
      obtain ⟨init, last, offsets, htokens, hlast, hstands, hfrom, hsorted⟩ :=
        ih (hsource.trans (by rw [List.append_assoc, hsplit]))
      have hwidth : utf8Len before < utf8Len (before ++ (scan depth c cs).taken) := by
        obtain ⟨more, htaken, -⟩ := (scan_fits depth c cs).split
        have hc := c.utf8Size_pos
        rw [htaken, String.utf8Len_append, String.utf8Len_cons]
        omega
      have hlater : ∀ offset ∈ offsets, utf8Len before < offset :=
        fun offset hoffset => Nat.lt_of_lt_of_le hwidth (hfrom offset hoffset)
      cases hkeep : keep operand (scan depth c cs).lexeme with
      | none =>
          exact ⟨init, last, offsets, htokens, hlast, hstands,
            fun offset hoffset => Nat.le_of_lt (hlater offset hoffset), hsorted⟩
      | some l =>
          refine ⟨⟨l, _⟩ :: init, last, utf8Len before :: offsets,
            congrArg (_ :: ·) htokens, hlast, .cons ⟨?_, ?_⟩ hstands, ?_,
            .cons hlater hsorted⟩
          · exact ⟨before, c, cs, depth, hsource, rfl, hblank, eq_some_of_keep hkeep⟩
          · exact (location_placeAfter hsource).symm
          · intro offset hoffset
            rcases List.mem_cons.mp hoffset with rfl | hoffset
            · exact Nat.le_refl _
            · exact Nat.le_of_lt (hlater offset hoffset)

/-- Tokens start further on than the ones before them. -/
theorem starts (h : Laid depth operand before rest result) :
    (∀ token ∈ result.tokens, placeAfter before ≤ token.span.start) ∧
      result.tokens.Pairwise fun one two => one.span.start < two.span.start := by
  induction h with
  | @stop depth operand before rest =>
      refine ⟨fun token htoken => ?_, List.pairwise_singleton _ _⟩
      rw [List.mem_singleton.mp htoken]
      exact Place.le_refl _
  | @blank depth operand before c cs result _ _ ih =>
      refine ⟨fun token htoken => Place.le_trans ?_ (ih.1 token htoken), ih.2⟩
      rw [placeAfter_append]
      exact Place.le_after _ _
  | @step depth operand before c cs result _ _ ih =>
      have hplace : placeAfter before < placeAfter (before ++ (scan depth c cs).taken) := by
        obtain ⟨more, htaken, -⟩ := (scan_fits depth c cs).split
        rw [htaken, placeAfter_append]
        exact Place.lt_after _ _ _
      have hlater : ∀ token ∈ result.tokens, placeAfter before < token.span.start :=
        fun token htoken => Place.lt_of_lt_of_le hplace (ih.1 token htoken)
      cases keep operand (scan depth c cs).lexeme with
      | none => exact ⟨fun token htoken => Place.le_of_lt (hlater token htoken), ih.2⟩
      | some l =>
          refine ⟨fun token htoken => ?_, .cons hlater ih.2⟩
          rcases List.mem_cons.mp htoken with rfl | htoken
          · exact Place.le_refl _
          · exact Place.le_of_lt (hlater token htoken)

/-- No token ends before it starts. -/
theorem spans (h : Laid depth operand before rest result) :
    ∀ token ∈ result.tokens, token.span.start ≤ token.span.stop := by
  induction h with
  | stop =>
      intro token htoken
      rw [List.mem_singleton.mp htoken]
      exact Place.le_refl _
  | blank _ _ ih => exact ih
  | @step depth operand before c cs result _ _ ih =>
      intro token htoken
      rcases List.mem_append.mp htoken with htoken | htoken
      · rw [Option.mem_toList, Option.map_eq_some_iff] at htoken
        obtain ⟨l, -, rfl⟩ := htoken
        obtain ⟨more, htaken, -⟩ := (scan_fits depth c cs).split
        refine Place.start_le_stop ?_
        rw [htaken, placeAfter_append]
        exact Place.lt_after _ _ _
      · exact ih token htoken

/-- Every issue starts somewhere in what is left of the text. -/
theorem issue_line (h : Laid depth operand before rest result)
    (hsource : source.toList = before ++ rest) : ∀ issue ∈ result.issues,
      ∃ line above below, Source.IsLine source issue.span.line line above below := by
  induction h with
  | stop => exact fun issue hissue => absurd hissue List.not_mem_nil
  | blank _ _ ih => exact ih (hsource.trans (by simp))
  | @step depth operand before c cs result _ _ ih =>
      intro issue hissue
      rcases List.mem_append.mp hissue with hissue | hissue
      · rw [Option.mem_toList, Option.map_eq_some_iff] at hissue
        obtain ⟨fault, -, rfl⟩ := hissue
        have hplace : (placeAfter before).line = Source.lineAfter before :=
          congrArg Place.line (placeAfter_eq before)
        have hline := Source.isLine_of_append hsource
        rw [← hplace] at hline
        exact ⟨_, _, _, hline⟩
      · exact ih (hsource.trans (by rw [List.append_assoc, scan_split])) issue hissue

end Laid

end Lexer

theorem lex_laid (source : String) : Lexer.Laid 0 false [] source.toList (lex source) :=
  Lexer.run_laid _ _ _ _ [] _

/-- The log of issues shows the first of them. -/
theorem CodeIssue.log_errors (issues : List CodeIssue) (source : String) :
    (CodeIssue.log issues source).errors =
      (issues.map fun issue => issue.diagnostic source).take Log.errorLimit :=
  congrArg Log.errors (Log.pushErrors_capped [] [] _)

/-- The tokens of a text end with the one end of the input.  Each of the others stands
at a byte further on than the ones before it, and its span starts at the location of
that byte.  No span ends before it starts, and the spans start one after the other.
At most twenty errors are recorded, none of them is lost in the log, and each shows
the line that its span starts on, without the carriage returns at its end. -/
theorem lex_positions (source : String) :
    ∃ init last offsets, (lex source).tokens = init ++ [last] ∧ last.lexeme = .endOfInput ∧
      (∀ token ∈ init, token.lexeme ≠ .endOfInput) ∧
      List.Forall₂ (Lexer.StandsAt source) init offsets ∧ offsets.Pairwise (· < ·) ∧
      (∀ token ∈ (lex source).tokens, token.span.start ≤ token.span.stop) ∧
      (lex source).tokens.Pairwise (fun one two => one.span.start < two.span.start) ∧
      (lex source).issues.length ≤ 20 ∧
      (CodeIssue.log (lex source).issues source).errors =
        (lex source).issues.map (fun issue => issue.diagnostic source) ∧
      ∀ error ∈ (CodeIssue.log (lex source).issues source).errors,
        ∃ span line above below, error.span = some span ∧
          Source.IsLine source span.line line above below ∧
          error.sourceLine = some (String.ofList (Source.dropReturns line)) := by
  have hlaid := lex_laid source
  obtain ⟨init, last, offsets, htokens, hlast, hstands, -, hsorted⟩ := hlaid.stands rfl
  have hissues : (lex source).issues.length ≤ 20 := Lexer.run_issues_length _ _ _ _ _ _
  have herrors : (CodeIssue.log (lex source).issues source).errors =
      (lex source).issues.map fun issue => issue.diagnostic source := by
    rw [CodeIssue.log_errors, List.take_of_length_le]
    rwa [List.length_map]
  refine ⟨init, last, offsets, htokens, hlast, Lexer.inside_of_stand hstands, hstands, hsorted,
    hlaid.spans, hlaid.starts.2, hissues, herrors, fun error herror => ?_⟩
  rw [herrors] at herror
  obtain ⟨issue, hissue, rfl⟩ := List.mem_map.mp herror
  obtain ⟨line, above, below, hline⟩ := hlaid.issue_line rfl issue hissue
  refine ⟨issue.span, line, above, below, rfl, hline, ?_⟩
  exact congrArg (fun line => some (line.getD "")) hline.line?_eq

end SceneQuiz
