import SceneQuiz.Proofs.Parse.Consumption
import SceneQuiz.Proofs.Token.Scanning
import SceneQuiz.Proofs.Token.Spans
/-!
What a step of the scan looks at.  A step takes up the text from its first character
on, leaves the rest as it is and keeps the bracket depth of its lexeme.  Without a
fault it is the same step before any text that it does not reach into, and it never
reaches into a semicolon or a line break that comes after what it starts with.
-/

namespace SceneQuiz

namespace Lexer

/-- No name, number, line break, string or comment starts here. -/
structure StartsSymbol (c : Char) (cs : List Char) : Prop where
  name : ¬ startsName c = true
  number : ¬ startsNumber c cs = true
  line : c ≠ '\n'
  quote : c ≠ '"'
  comment : ∀ body, c = '/' → cs ≠ '*' :: body

theorem scan_symbol {c : Char} {cs : List Char} (h : StartsSymbol c cs) (depth : Nat) :
    scan depth c cs = scanSymbol depth c cs := by
  have hnumber := h.number
  unfold startsNumber at hnumber
  rw [scan, if_neg h.line, if_neg h.quote, if_neg hnumber, if_neg h.name]
  exact h.comment

theorem scan_string (depth : Nat) (cs : List Char) :
    scan depth '"' cs = ⟨some (.str (String.ofList (spanString cs).1.1)),
      if (spanString cs).1.2 then none else some .unterminatedString,
      '"' :: (spanString cs).2.1, (spanString cs).2.2, depth⟩ :=
  rfl

theorem scan_comment (depth : Nat) (body : List Char) :
    scan depth '/' ('*' :: body) = ⟨none,
      if (spanComment body).1 then none else some .unterminatedComment,
      '/' :: '*' :: (spanComment body).2.1, (spanComment body).2.2, depth⟩ :=
  rfl

theorem scan_break (depth : Nat) (cs : List Char) :
    scan depth '\n' cs =
      if 0 < depth then .skip ['\n'] cs depth else .ok .newline ['\n'] cs depth :=
  rfl

/-- A property of whatever the scan takes up, by what starts there. -/
theorem scan_cases {P : Char → List Char → Step → Prop} {depth : Nat}
    (hname : ∀ c cs, startsName c = true →
      P c cs (.ok (nameLexeme (String.ofList (c :: (spanName cs).1))) (c :: (spanName cs).1)
        (spanName cs).2 depth))
    (hnumber : ∀ c cs, startsNumber c cs = true →
      P c cs (.ok (.number (String.ofList (spanNumber c cs).1)) (spanNumber c cs).1
        (spanNumber c cs).2 depth))
    (hbreak : ∀ cs, P '\n' cs
      (if 0 < depth then .skip ['\n'] cs depth else .ok .newline ['\n'] cs depth))
    (hstring : ∀ cs, P '"' cs ⟨some (.str (String.ofList (spanString cs).1.1)),
      if (spanString cs).1.2 then none else some .unterminatedString,
      '"' :: (spanString cs).2.1, (spanString cs).2.2, depth⟩)
    (hcomment : ∀ body, P '/' ('*' :: body) ⟨none,
      if (spanComment body).1 then none else some .unterminatedComment,
      '/' :: '*' :: (spanComment body).2.1, (spanComment body).2.2, depth⟩)
    (hsymbol : ∀ c cs, StartsSymbol c cs → P c cs (scanSymbol depth c cs))
    (c : Char) (cs : List Char) : P c cs (scan depth c cs) := by
  by_cases hc : startsName c = true
  · rw [scan_name hc]
    exact hname c cs hc
  by_cases hn : startsNumber c cs = true
  · rw [scan_number hn]
    exact hnumber c cs hn
  by_cases hb : c = '\n'
  · rw [hb]
    exact hbreak cs
  by_cases hq : c = '"'
  · rw [hq]
    exact hstring cs
  by_cases hm : ∃ body, c = '/' ∧ cs = '*' :: body
  · obtain ⟨body, rfl, rfl⟩ := hm
    exact hcomment body
  · have hs : StartsSymbol c cs := ⟨hc, hn, hb, hq, fun body hc hcs => hm ⟨body, hc, hcs⟩⟩
    rw [scan_symbol hs]
    exact hsymbol c cs hs

theorem isLevel_of_single? {c : Char} {l : Lexeme} (h : single? c = some l) :
    l.isLevel = true := by
  revert h
  unfold single?
  iterate 16 refine @entry_ite (fun l => l.isLevel = true) _ _ _ _ _ rfl ?_
  exact nofun

theorem isLevel_of_double? {c d : Char} {l : Lexeme} (h : double? c d = some l) :
    l.isLevel = true := by
  revert h
  unfold double?
  iterate 4 refine @entry_ite (fun l => l.isLevel = true) _ _ _ _ _ rfl ?_
  exact nofun

theorem opens_of_opening? {c : Char} {l : Lexeme} (h : opening? c = some l) :
    l.opens = true := by
  revert h
  unfold opening?
  iterate 3 refine @entry_ite (fun l => l.opens = true) _ _ _ _ _ rfl ?_
  exact nofun

theorem closes_of_closing? {c : Char} {l : Lexeme} (h : closing? c = some l) :
    l.closes = true := by
  revert h
  unfold closing?
  iterate 3 refine @entry_ite (fun l => l.closes = true) _ _ _ _ _ rfl ?_
  exact nofun

/-- A step from `depth` that finds no end, takes up the text from its first character
on, leaves the rest as it is and goes as deep as its lexeme. -/
structure Step.Fits (depth : Nat) (c : Char) (cs : List Char) (step : Step) : Prop where
  inside : step.lexeme ≠ some .endOfInput
  split : ∃ more, step.taken = c :: more ∧ more ++ step.rest = cs
  depth : step.depth = step.lexeme.elim depth (Lexeme.depthAfter depth)

theorem Step.Fits.shorter {depth : Nat} {c : Char} {cs : List Char} {step : Step}
    (h : step.Fits depth c cs) : step.rest.length ≤ cs.length := by
  obtain ⟨more, -, rfl⟩ := h.split
  rw [List.length_append]
  exact Nat.le_add_left _ _

theorem Step.fits_ok {depth : Nat} {c : Char} {more rest : List Char} {l : Lexeme}
    (hl : l.isLevel = true) :
    (Step.ok l (c :: more) rest depth).Fits depth c (more ++ rest) where
  inside hend := by
    cases hend
    cases hl
  split := ⟨more, rfl, rfl⟩
  depth := (Lexeme.depthAfter_of_isLevel hl depth).symm

theorem scanSingle_fits (depth : Nat) (c : Char) (cs : List Char) :
    (scanSingle depth c cs).Fits depth c cs := by
  unfold scanSingle
  split
  · next hl => exact @Step.fits_ok depth c [] cs _ (isLevel_of_single? hl)
  · next hl =>
      have hopens := opens_of_opening? hl
      refine ⟨?_, ⟨[], rfl, rfl⟩, (Lexeme.depthAfter_of_opens hopens depth).symm⟩
      rintro ⟨⟩
      cases hopens
  · next hl =>
      have hcloses := closes_of_closing? hl
      refine ⟨?_, ⟨[], rfl, rfl⟩, (Lexeme.depthAfter_of_closes hcloses depth).symm⟩
      rintro ⟨⟩
      cases hcloses
  · exact ⟨nofun, ⟨[], rfl, rfl⟩, rfl⟩

theorem scanSymbol_fits (depth : Nat) (c : Char) (cs : List Char) :
    (scanSymbol depth c cs).Fits depth c cs := by
  unfold scanSymbol
  split
  · split
    · next d tail _ _ hl => exact @Step.fits_ok depth c [d] tail _ (isLevel_of_double? hl)
    · exact scanSingle_fits depth c _
  · exact scanSingle_fits depth c _

/-- The depth that the scan keeps is that of the lexemes. -/
theorem scan_fits (depth : Nat) : ∀ c cs, (scan depth c cs).Fits depth c cs := by
  refine @scan_cases (fun c cs step => step.Fits depth c cs) depth ?_ ?_ ?_ ?_ ?_ ?_
  · intro c cs _
    have hsplit : (spanName cs).1 ++ (spanName cs).2 = cs := List.takeWhile_append_dropWhile
    have hlevel : (nameLexeme (String.ofList (c :: (spanName cs).1))).isLevel = true := by
      unfold nameLexeme
      split <;> rfl
    have hfits := @Step.fits_ok depth c (spanName cs).1 (spanName cs).2 _ hlevel
    rwa [hsplit] at hfits
  · intro c cs _
    obtain ⟨fraction, exponent, -, htaken, hsplit⟩ := spanNumber_parts c cs
    have hfits := @Step.fits_ok depth c ((spanDigits cs).1 ++ fraction ++ exponent)
      (spanNumber c cs).2 (.number (String.ofList (spanNumber c cs).1)) rfl
    rwa [hsplit, ← htaken] at hfits
  · intro cs
    split
    · exact ⟨nofun, ⟨[], rfl, rfl⟩, rfl⟩
    · exact @Step.fits_ok depth '\n' [] cs .newline rfl
  · exact fun cs => ⟨nofun, ⟨_, rfl, spanString_split cs⟩, rfl⟩
  · intro body
    exact ⟨nofun, ⟨_, rfl, congrArg ('*' :: ·) (spanComment_split body)⟩, rfl⟩
  · exact fun c cs _ => scanSymbol_fits depth c cs

/-- The same step with more text after what it leaves. -/
def Step.before (step : Step) (more : List Char) : Step :=
  { step with rest := step.rest ++ more }

theorem closed_of_no_fault {closed : Bool} {fault : CodeFault}
    (h : (if closed = true then none else some fault) = none) : closed = true := by
  by_contra hopen
  rw [if_neg hopen] at h
  cases h

theorem scanSingle_append (depth : Nat) (c : Char) (cs more : List Char) :
    scanSingle depth c (cs ++ more) = (scanSingle depth c cs).before more := by
  unfold scanSingle
  split <;> rfl

theorem scanSymbol_within {depth : Nat} {c : Char} {cs more : List Char}
    (hrest : more.length ≤ (scanSymbol depth c (cs ++ more)).rest.length) :
    scanSymbol depth c (cs ++ more) = (scanSymbol depth c cs).before more := by
  cases cs with
  | nil =>
      cases more with
      | nil => exact scanSingle_append depth c [] []
      | cons d more =>
          rw [List.nil_append, scanSymbol] at hrest ⊢
          split at hrest
          · exact absurd hrest (Nat.not_succ_le_self _)
          · exact scanSingle_append depth c [] (d :: more)
  | cons d cs =>
      rw [List.cons_append, scanSymbol, scanSymbol]
      split
      · rfl
      · exact scanSingle_append depth c (d :: cs) more

theorem scanSymbol_before {b : Char} (hb : separates b = true) (depth : Nat) (c : Char)
    (cs tail : List Char) :
    scanSymbol depth c (cs ++ b :: tail) = (scanSymbol depth c cs).before (b :: tail) := by
  cases cs with
  | nil =>
      have hnone : double? c b = none := by
        rcases separates_cases hb with rfl | rfl <;> simp [double?]
      rw [List.nil_append, scanSymbol, hnone]
      exact scanSingle_append depth c [] (b :: tail)
  | cons d cs =>
      rw [List.cons_append, scanSymbol, scanSymbol]
      split
      · rfl
      · exact scanSingle_append depth c (d :: cs) (b :: tail)

/-- A symbol starts with less text after it as well. -/
theorem StartsSymbol.within {c : Char} {cs more : List Char} (h : StartsSymbol c (cs ++ more)) :
    StartsSymbol c cs where
  name := h.name
  number hstart := by
    cases cs with
    | cons d cs => exact h.number hstart
    | nil =>
        have hdigit : c.isDigit = true := by simpa [startsNumber] using hstart
        exact h.number (by rw [startsNumber, hdigit]; rfl)
  line := h.line
  quote := h.quote
  comment body hc hbody := h.comment (body ++ more) hc (congrArg (· ++ more) hbody)

theorem StartsSymbol.before {b : Char} (hb : separates b = true) {c : Char} {cs : List Char}
    (h : StartsSymbol c cs) (tail : List Char) : StartsSymbol c (cs ++ b :: tail) where
  name := h.name
  number := by
    rw [startsNumber_before hb]
    exact h.number
  line := h.line
  quote := h.quote
  comment body hc hbody := by
    cases cs with
    | nil =>
        rw [List.nil_append] at hbody
        rw [(List.cons.inj hbody).1] at hb
        cases hb
    | cons d cs =>
        rw [(List.cons.inj hbody).1] at h
        exact h.comment cs hc rfl

/-- A step without fault that stops before more text is the same step without it. -/
theorem scan_within (depth : Nat) (c : Char) (cs more : List Char)
    (hfault : (scan depth c (cs ++ more)).fault = none)
    (hrest : more.length ≤ (scan depth c (cs ++ more)).rest.length) :
    scan depth c (cs ++ more) = (scan depth c cs).before more := by
  generalize htext : cs ++ more = text at hfault hrest
  revert cs
  refine @scan_cases (fun c text step => step.fault = none → more.length ≤ step.rest.length →
    ∀ cs, cs ++ more = text → step = (scan depth c cs).before more) depth
    ?_ ?_ ?_ ?_ ?_ ?_ c text hfault hrest
  · rintro c _ hc - hrest cs rfl
    rw [spanName_within hrest, scan_name hc]
    rfl
  · rintro c _ hc - hrest cs rfl
    rw [spanNumber_within c hrest, scan_number (startsNumber_within hc hrest)]
    rfl
  · rintro _ - - cs rfl
    rw [scan_break]
    split <;> rfl
  · rintro _ hfault hrest cs rfl
    rw [scan_string, spanString_append (spanString_within (closed_of_no_fault hfault) hrest)]
    rfl
  · intro body hfault hrest cs hcs
    cases cs with
    | nil =>
        have hsplit := congrArg List.length (spanComment_split body)
        rw [List.length_append] at hsplit
        rw [List.nil_append] at hcs
        rw [hcs, List.length_cons] at hrest
        dsimp only at hrest
        omega
    | cons d cs =>
        rw [List.cons_append] at hcs
        obtain ⟨rfl, rfl⟩ := List.cons.inj hcs
        have hclosed := spanComment_within (closed_of_no_fault hfault) hrest
        rw [scan_comment, spanComment_append hclosed, hclosed]
        rfl
  · rintro c _ hc - hrest cs rfl
    rw [scan_symbol hc.within, scanSymbol_within hrest]

/-- A step without fault is the same whatever comes after a semicolon or a line
break. -/
theorem scan_before {b : Char} (hb : separates b = true) (depth : Nat) (tail : List Char) :
    ∀ c cs, (scan depth c cs).fault = none →
      scan depth c (cs ++ b :: tail) = (scan depth c cs).before (b :: tail) := by
  refine @scan_cases (fun c cs step => step.fault = none →
    scan depth c (cs ++ b :: tail) = step.before (b :: tail)) depth ?_ ?_ ?_ ?_ ?_ ?_
  · intro c cs hc _
    rw [scan_name hc, spanName_before hb]
    rfl
  · intro c cs hc _
    rw [scan_number ((startsNumber_before hb c cs tail).trans hc), spanNumber_before hb]
    rfl
  · intro cs _
    rw [scan_break]
    split <;> rfl
  · intro cs hfault
    rw [scan_string, spanString_append (closed_of_no_fault hfault)]
    rfl
  · intro body hfault
    have hclosed := closed_of_no_fault hfault
    rw [List.cons_append, scan_comment, spanComment_append hclosed, hclosed]
    rfl
  · intro c cs hc _
    rw [scan_symbol (hc.before hb tail), scanSymbol_before hb]

end Lexer

end SceneQuiz
