import SceneQuiz.Expr.Printer
import SceneQuiz.Proofs.Expr.Spelling
import SceneQuiz.Proofs.Parse.Erasure
import SceneQuiz.Proofs.Token.Numeral
/-!
Lexing a text piece by piece.  Each piece of a printed text is taken up as its
own lexemes, whatever comes after it that cannot run into it, and the lexemes of
the whole text are those of its pieces one after another.  The lexer takes up a whole
text as a name exactly if the text is a name, and as a number exactly if it is a
numeral: what a step takes up is spelled like its lexeme, and a name or numeral that
nothing follows is taken up in one step.
-/

namespace SceneQuiz

theorem Word.ofText?_eq_none_iff {text : String} :
    Word.ofText? text = none ↔ text ∉ Word.all.map Word.text := by
  simp [Word.ofText?]

/-- A name, spelled out: where it starts, how it goes on, and that it is not reserved. -/
theorem isName_iff {name : String} :
    isName name = true ↔
      (∃ first rest, name.toList = first :: rest ∧ startsName first = true ∧
        ∀ c ∈ rest, continuesName c = true) ∧ name ∉ Word.all.map Word.text := by
  rw [isName, ← Word.ofText?_eq_none_iff]
  cases name.toList with
  | nil => simp
  | cons first rest =>
      simp only [Bool.and_eq_true, List.all_eq_true, Option.isNone_iff_eq_none]
      apply and_congr_left
      intro _
      constructor
      · exact fun h => ⟨first, rest, rfl, h⟩
      · rintro ⟨_, _, ⟨⟩, h⟩
        exact h

namespace Lexer

/-- What a run keeps of a step: a line break only after an operand. -/
def keep (operand : Bool) : Option Lexeme → Option Lexeme
  | some .newline => if operand then some .newline else none
  | lexeme => lexeme

theorem eq_some_of_keep {operand : Bool} {lexeme : Option Lexeme} {l : Lexeme}
    (h : keep operand lexeme = some l) : lexeme = some l := by
  unfold keep at h
  split at h
  · cases operand with
    | true => exact h
    | false => cases h
  · exact h

theorem keep_of_ne {l : Lexeme} (hl : l ≠ .newline) (operand : Bool) :
    keep operand (some l) = some l := by
  cases l <;> first | rfl | exact absurd rfl hl

/-- The result with what a step adds in front. -/
def Result.record (result : Result) (kept : Option Lexeme) (fault : Option CodeFault)
    (span : Span) : Result where
  tokens := (kept.map fun lexeme => ⟨lexeme, span⟩).toList ++ result.tokens
  issues := (fault.map fun fault => ⟨fault, span⟩).toList ++ result.issues

theorem Result.record_lexemes (result : Result) (kept : Option Lexeme)
    (fault : Option CodeFault) (span : Span) :
    (result.record kept fault span).tokens.map Token.lexeme =
      kept.toList ++ result.tokens.map Token.lexeme := by
  cases kept <;> rfl

theorem Result.record_issues_eq_nil {result : Result} {kept : Option Lexeme}
    {fault : Option CodeFault} {span : Span} :
    (result.record kept fault span).issues = [] ↔ fault = none ∧ result.issues = [] := by
  cases fault <;> simp [record]

/-- A step of a run takes from the budget if it has a fault. -/
theorem run_cons {c : Char} (hblank : isBlank c = false) (fuel budget depth : Nat)
    (operand : Bool) (place : Place) (cs : List Char) :
    run (fuel + 1) (budget + 1) depth operand place (c :: cs) =
      (run fuel ((scan depth c cs).fault.elim (budget + 1) fun _ => budget)
        (scan depth c cs).depth
        ((keep operand (scan depth c cs).lexeme).elim operand Lexeme.endsOperand)
        (place.after (scan depth c cs).taken) (scan depth c cs).rest).record
      (keep operand (scan depth c cs).lexeme) (scan depth c cs).fault
      (place.spanTo (place.after (scan depth c cs).taken)) := by
  rw [run, if_neg (by simp [hblank])]
  generalize scan depth c cs = step
  rcases step with ⟨_ | l, _ | fault, taken, rest, depth'⟩
  · rfl
  · rfl
  · cases l with
    | newline => cases operand <;> rfl
    | _ => rfl
  · cases l with
    | newline => cases operand <;> rfl
    | _ => rfl

/-- Before `rest`, the text gives the lexemes `ls` and no issue. -/
def Scans (text : List Char) (ls : List Lexeme) (rest : List Char) : Prop :=
  ∀ fuel budget depth operand place, (text ++ rest).length < fuel →
    ∃ fuel' depth' operand' place', rest.length < fuel' ∧
      (run fuel (budget + 1) depth operand place (text ++ rest)).issues =
        (run fuel' (budget + 1) depth' operand' place' rest).issues ∧
      (run fuel (budget + 1) depth operand place (text ++ rest)).tokens.map
          Token.lexeme =
        ls ++ (run fuel' (budget + 1) depth' operand' place' rest).tokens.map
          Token.lexeme

theorem Scans.nil (rest : List Char) : Scans [] [] rest :=
  fun fuel _ depth operand place hfuel =>
    ⟨fuel, depth, operand, place, hfuel, rfl, rfl⟩

theorem Scans.append {one two rest : List Char} {ls ms : List Lexeme}
    (hone : Scans one ls (two ++ rest)) (htwo : Scans two ms rest) :
    Scans (one ++ two) (ls ++ ms) rest := by
  intro fuel budget depth operand place hfuel
  rw [List.append_assoc] at hfuel ⊢
  obtain ⟨fuel, depth, operand, place, hfuel, hissues, htokens⟩ :=
    hone fuel budget depth operand place hfuel
  obtain ⟨fuel, depth, operand, place, hfuel, hissues', htokens'⟩ :=
    htwo fuel budget depth operand place hfuel
  exact ⟨fuel, depth, operand, place, hfuel, hissues.trans hissues',
    by rw [htokens, htokens', List.append_assoc]⟩

theorem Scans.blank (rest : List Char) : Scans [' '] [] rest := by
  intro fuel budget depth operand place hfuel
  obtain ⟨fuel, rfl⟩ : ∃ n, fuel = n + 1 := ⟨fuel - 1, by omega⟩
  have hrest : rest.length < fuel := by simpa using hfuel
  exact ⟨fuel, depth, operand, place.next ' ', hrest, rfl, rfl⟩

/-- A step of the scan that takes up a piece as one lexeme. -/
theorem run_ok {c : Char} {cs taken rest : List Char} {l : Lexeme}
    {depth depth' : Nat} (hblank : isBlank c = false) (hnewline : l ≠ .newline)
    (hscan : scan depth c cs = .ok l taken rest depth') (fuel budget : Nat)
    (operand : Bool) (place : Place) :
    run (fuel + 1) (budget + 1) depth operand place (c :: cs) =
      (run fuel (budget + 1) depth' l.endsOperand (place.after taken)
        rest).addToken ⟨l, place.spanTo (place.after taken)⟩ := by
  rw [run_cons hblank, hscan, Step.ok, keep_of_ne hnewline]
  rfl

theorem Scans.lexeme {c : Char} {cs rest : List Char} {l : Lexeme}
    (hblank : isBlank c = false) (hnewline : l ≠ .newline)
    (hscan : ∀ depth, ∃ depth',
      scan depth c (cs ++ rest) = .ok l (c :: cs) rest depth') :
    Scans (c :: cs) [l] rest := by
  intro fuel budget depth operand place hfuel
  obtain ⟨fuel, rfl⟩ : ∃ n, fuel = n + 1 := ⟨fuel - 1, by omega⟩
  have hrest : rest.length < fuel := by
    simp only [List.length_append, List.length_cons] at hfuel
    omega
  obtain ⟨depth', hstep⟩ := hscan depth
  have hrun := run_ok hblank hnewline hstep fuel budget operand place
  refine ⟨fuel, depth', l.endsOperand, place.after (c :: cs), hrest, ?_, ?_⟩
  · rw [List.cons_append, hrun]
    rfl
  · rw [List.cons_append, hrun]
    rfl

/-- A line break after a semicolon ends no operand, so it is no lexeme. -/
theorem Scans.semicolon (rest : List Char) :
    Scans [';', '\n'] [.semicolon] rest := by
  intro fuel budget depth operand place hfuel
  obtain ⟨fuel, rfl⟩ : ∃ n, fuel = n + 2 := ⟨fuel - 2, by simp at hfuel; omega⟩
  have hrest : rest.length < fuel := by simpa using hfuel
  have hscan : scan depth ';' ('\n' :: rest) =
      .ok .semicolon [';'] ('\n' :: rest) depth := by
    simp [scan, startsName, scanSymbol, double?, scanSingle, single?]
  have hrun := run_ok (by decide) (by decide) hscan (fuel + 1) budget operand place
  have hbreak : ∃ place', run (fuel + 1) (budget + 1) depth false
      (place.after [';']) ('\n' :: rest) =
        run fuel (budget + 1) depth false place' rest := by
    refine ⟨(place.after [';']).after ['\n'], ?_⟩
    cases depth <;> rfl
  obtain ⟨place', hbreak⟩ := hbreak
  refine ⟨fuel, depth, false, place', hrest, ?_, ?_⟩
  · rw [List.cons_append, List.cons_append, List.nil_append, hrun]
    show (run (fuel + 1) (budget + 1) depth false (place.after [';'])
      ('\n' :: rest)).issues = _
    rw [hbreak]
  · rw [List.cons_append, List.cons_append, List.nil_append, hrun]
    exact congrArg (fun result => .semicolon :: result.tokens.map Token.lexeme)
      hbreak

/-- A name does not go on with `rest`. -/
def EndsName (rest : List Char) : Prop :=
  ∀ c ∈ rest.head?, continuesName c = false

theorem startsName_facts {c : Char} (hc : startsName c = true) :
    isBlank c = false ∧ c ≠ '\n' ∧ c ≠ '"' ∧ c ≠ '.' ∧ c.isDigit = false := by
  refine ⟨?_, ?_, ?_, ?_, ?_⟩
  · apply Bool.eq_false_iff.mpr
    intro hblank
    simp only [isBlank, Bool.or_eq_true, beq_iff_eq] at hblank
    rcases hblank with (rfl | rfl) | rfl <;> exact absurd hc (by decide)
  · rintro rfl
    exact absurd hc (by decide)
  · rintro rfl
    exact absurd hc (by decide)
  · rintro rfl
    exact absurd hc (by decide)
  · simp only [startsName, Bool.or_eq_true, beq_iff_eq] at hc
    rcases hc with (hc | rfl) | rfl
    · change (decide ('A'.val ≤ c.val ∧ c.val ≤ 'Z'.val) ||
        decide ('a'.val ≤ c.val) && decide (c.val ≤ 'z'.val)) = true at hc
      simp only [Bool.or_eq_true, Bool.and_eq_true, decide_eq_true_eq,
        UInt32.le_iff_toNat_le] at hc
      simp only [Char.isDigit, Bool.and_eq_false_iff, decide_eq_false_iff_not,
        ge_iff_le, UInt32.le_iff_toNat_le]
      have hA : 'A'.val.toNat = 65 := rfl
      have ha : 'a'.val.toNat = 97 := rfl
      have hnine : '9'.val.toNat = 57 := rfl
      omega
    · decide
    · decide

/-- The lexeme of a name: a reserved word or an identifier. -/
def nameLexeme (text : String) : Lexeme :=
  match Word.ofText? text with
  | some word => .word word
  | none => .ident text

theorem scan_name {c : Char} (hc : startsName c = true) (depth : Nat)
    (cs : List Char) :
    scan depth c cs = .ok (nameLexeme (String.ofList (c :: (spanName cs).1)))
      (c :: (spanName cs).1) (spanName cs).2 depth := by
  obtain ⟨-, hnewline, hquote, hpoint, hdigit⟩ := startsName_facts hc
  simp only [scan, if_neg hnewline, if_neg hquote, hdigit, hc, if_true,
    Bool.false_or, beq_eq_false_iff_ne.mpr hpoint, Bool.false_and,
    Bool.false_eq_true, if_false]
  rfl

theorem Scans.name {c : Char} {cs rest : List Char} (hc : startsName c = true)
    (hcs : ∀ d ∈ cs, continuesName d = true) (hrest : EndsName rest) :
    Scans (c :: cs) [nameLexeme (String.ofList (c :: cs))] rest := by
  refine Scans.lexeme (startsName_facts hc).1 ?_ fun depth => ⟨depth, ?_⟩
  · unfold nameLexeme
    split <;> simp
  · have hspan : spanName (cs ++ rest) = (cs, rest) := span_append hcs hrest
    rw [scan_name hc, hspan]

theorem Scans.ident {name : String} (hname : isName name = true)
    {rest : List Char} (hrest : EndsName rest) :
    Scans name.toList [.ident name] rest := by
  obtain ⟨⟨c, cs, hlist, hc, hcs⟩, hfree⟩ := isName_iff.mp hname
  have htext : String.ofList (c :: cs) = name := by
    rw [← hlist, String.ofList_toList]
  have hscans := Scans.name hc hcs hrest
  rw [htext, nameLexeme, Word.ofText?_eq_none_iff.mpr hfree] at hscans
  rw [hlist]
  exact hscans

theorem Scans.word (word : Word) {rest : List Char} (hrest : EndsName rest) :
    Scans word.text.toList [.word word] rest := by
  rcases hlist : word.text.toList with _ | ⟨c, cs⟩
  · cases word <;> simp [Word.text] at hlist
  · have hstarts : startsName c = true ∧ cs.all continuesName = true := by
      cases word <;> simp [Word.text] at hlist <;>
        obtain ⟨rfl, rfl⟩ := hlist <;> exact ⟨rfl, rfl⟩
    have htext : String.ofList (c :: cs) = word.text := by
      rw [← hlist, String.ofList_toList]
    have hword : nameLexeme word.text = .word word := by
      cases word <;> decide
    have hscans := Scans.name hstarts.1 (List.all_eq_true.mp hstarts.2) hrest
    rw [htext, hword] at hscans
    exact hscans

theorem startsNumber_facts {c : Char} {cs : List Char}
    (hc : startsNumber c cs = true) : isBlank c = false ∧ c ≠ '\n' ∧ c ≠ '"' := by
  have hne : ∀ d : Char, d.isDigit = false → d ≠ '.' → c ≠ d := by
    rintro d hdigit hpoint rfl
    simp [startsNumber, hdigit, hpoint] at hc
  refine ⟨?_, hne _ (by decide) (by decide), hne _ (by decide) (by decide)⟩
  simp [isBlank, hne ' ' (by decide) (by decide),
    hne '\t' (by decide) (by decide), hne '\r' (by decide) (by decide)]

theorem scan_number {c : Char} {cs : List Char} (hc : startsNumber c cs = true)
    (depth : Nat) :
    scan depth c cs = .ok (.number (String.ofList (spanNumber c cs).1))
      (spanNumber c cs).1 (spanNumber c cs).2 depth := by
  obtain ⟨-, hnewline, hquote⟩ := startsNumber_facts hc
  unfold startsNumber at hc
  simp only [scan, if_neg hnewline, if_neg hquote, hc, if_true]

theorem Scans.number {text : String} (htext : isNumeral text = true)
    {rest : List Char} (hrest : EndsNumber rest) :
    Scans text.toList [.number text] rest := by
  rcases hlist : text.toList with _ | ⟨c, cs⟩
  · rw [isNumeral, hlist] at htext
    cases htext
  · have hof : String.ofList (c :: cs) = text := by
      rw [← hlist, String.ofList_toList]
    rw [← hof] at htext
    obtain ⟨hstart, hspan⟩ := spanNumber_of_isNumeral htext hrest
    refine Scans.lexeme (startsNumber_facts hstart).1 (by simp)
      fun depth => ⟨depth, ?_⟩
    rw [scan_number hstart, hspan, hof]

/-- The characters of a string literal between its quotes. -/
def escaped (cs : List Char) : List Char :=
  cs.flatMap fun c =>
    if c = '"' then ['\\', '"'] else if c = '\\' then ['\\', '\\'] else [c]

theorem toList_stringLiteral (text : String) :
    (Expr.stringLiteral text).toList = '"' :: (escaped text.toList ++ ['"']) := by
  rw [Expr.stringLiteral, String.toList_append, String.toList_append,
    String.toList_join, List.flatMap_map, escaped]
  have hchars : (fun c : Char => (if c = '"' then "\\\"" else
      if c = '\\' then "\\\\" else c.toString).toList) =
      fun c => if c = '"' then ['\\', '"'] else
        if c = '\\' then ['\\', '\\'] else [c] := by
    funext c
    split
    · simp
    · split <;> simp
  rw [hchars]
  simp

theorem spanString_escaped (cs rest : List Char) :
    spanString (escaped cs ++ '"' :: rest) =
      ((cs, true), escaped cs ++ ['"'], rest) := by
  induction cs with
  | nil => rfl
  | cons c cs ih =>
      simp only [escaped, List.flatMap_cons, List.append_assoc] at ih ⊢
      split
      · subst_vars
        simp [spanString, ih]
      · split
        · subst_vars
          simp [spanString, ih]
        · rename_i hquote hslash
          simp only [List.cons_append, List.nil_append]
          rw [spanString.eq_5 _ _ hquote (by simp [hslash]) (by simp [hslash]),
            ih]

theorem Scans.str (text : String) (rest : List Char) :
    Scans (Expr.stringLiteral text).toList [.str text] rest := by
  rw [toList_stringLiteral]
  refine Scans.lexeme (by decide) (by simp) fun depth => ⟨depth, ?_⟩
  rw [List.append_assoc, List.singleton_append]
  simp [scan, spanString_escaped, Step.ok]

/-- Characters that are lexemes whatever comes after them. -/
def marks : List (Char × Lexeme) :=
  [('(', .leftParen), (')', .rightParen), ('[', .leftBracket),
    (']', .rightBracket), (Char.ofNat 0x7b, .leftBrace),
    (Char.ofNat 0x7d, .rightBrace), (',', .comma), (Char.ofNat 39, .quote),
    ('!', .bang), ('-', .minus)]

theorem Scans.mark {c : Char} {l : Lexeme} (h : (c, l) ∈ marks)
    (rest : List Char) : Scans [c] [l] rest := by
  have hfacts : ∀ mark ∈ marks, isBlank mark.1 = false ∧ mark.2 ≠ .newline := by
    decide
  refine Scans.lexeme (hfacts _ h).1 (hfacts _ h).2 fun depth =>
    ⟨(scan depth c rest).depth, ?_⟩
  simp only [marks, List.mem_cons, Prod.mk.injEq, List.not_mem_nil,
    or_false] at h
  rcases h with ⟨rfl, rfl⟩ | ⟨rfl, rfl⟩ | ⟨rfl, rfl⟩ | ⟨rfl, rfl⟩ | ⟨rfl, rfl⟩ |
    ⟨rfl, rfl⟩ | ⟨rfl, rfl⟩ | ⟨rfl, rfl⟩ | ⟨rfl, rfl⟩ | ⟨rfl, rfl⟩ <;>
  · rcases rest with _ | ⟨d, rest⟩ <;>
      simp [scan, startsName, scanSymbol, double?, scanSingle, single?,
        opening?, closing?, Char.isDigit, Step.ok]

/-- `rest` makes no longer symbol and no comment out of an operator before
it. -/
def Plain (rest : List Char) : Prop :=
  ∀ c ∈ rest.head?, c ≠ '=' ∧ c ≠ '*'

/-- Characters that are lexemes before what is plain. -/
def symbols : List (Char × Lexeme) :=
  [(':', .colon), ('=', .equal), ('#', .hash), ('<', .less), ('>', .greater),
    ('+', .plus), ('-', .minus), ('*', .star), ('/', .slash), ('^', .caret)]

theorem Scans.symbol {c : Char} {l : Lexeme} {rest : List Char}
    (h : (c, l) ∈ symbols) (hrest : Plain rest) : Scans [c] [l] rest := by
  have hfacts : ∀ symbol ∈ symbols,
      isBlank symbol.1 = false ∧ symbol.2 ≠ .newline := by
    decide
  refine Scans.lexeme (hfacts _ h).1 (hfacts _ h).2 fun depth => ⟨depth, ?_⟩
  simp only [symbols, List.mem_cons, Prod.mk.injEq, List.not_mem_nil, or_false] at h
  rcases rest with _ | ⟨d, rest⟩
  · rcases h with ⟨rfl, rfl⟩ | ⟨rfl, rfl⟩ | ⟨rfl, rfl⟩ | ⟨rfl, rfl⟩ | ⟨rfl, rfl⟩ |
      ⟨rfl, rfl⟩ | ⟨rfl, rfl⟩ | ⟨rfl, rfl⟩ | ⟨rfl, rfl⟩ | ⟨rfl, rfl⟩ <;> rfl
  · obtain ⟨hequal, hstar⟩ := hrest d rfl
    rcases h with ⟨rfl, rfl⟩ | ⟨rfl, rfl⟩ | ⟨rfl, rfl⟩ | ⟨rfl, rfl⟩ | ⟨rfl, rfl⟩ |
      ⟨rfl, rfl⟩ | ⟨rfl, rfl⟩ | ⟨rfl, rfl⟩ | ⟨rfl, rfl⟩ | ⟨rfl, rfl⟩ <;>
    simp [scan, startsName, scanSymbol, double?, scanSingle, single?,
      Char.isDigit, hequal, hstar]

theorem Scans.operator (op : BinOp) {rest : List Char} (hrest : Plain rest) :
    Scans op.spaced.toList [op.lexeme] rest := by
  have hspaced : ∀ text : List Char, Scans text [op.lexeme] (' ' :: rest) →
      Scans (' ' :: (text ++ [' '])) [op.lexeme] rest := by
    intro text htext
    have hlead := (Scans.blank (text ++ [' '] ++ rest)).append
      (Scans.append (htext : Scans text _ ([' '] ++ rest)) (Scans.blank rest))
    simpa using hlead
  have hblank : EndsName (' ' :: rest) := by
    intro c hc
    rw [List.head?_cons, Option.mem_some_iff] at hc
    rw [← hc]
    decide
  cases op with
  | define =>
      exact hspaced [':', '='] (Scans.lexeme (by decide) (by decide)
        fun depth => ⟨depth, rfl⟩)
  | or =>
      exact hspaced _ (Scans.word .orWord hblank)
  | and =>
      exact hspaced _ (Scans.word .andWord hblank)
  | dot =>
      exact hspaced ['.'] (Scans.lexeme (by decide) (by decide)
        fun depth => ⟨depth, rfl⟩)
  | lessEq | greaterEq =>
      exact Scans.lexeme (by decide) (by decide) fun depth => ⟨depth, rfl⟩
  | _ => exact Scans.symbol (by decide) hrest

end Lexer

/-- A text that is taken up piece by piece to its end has no issue. -/
theorem lex_of_scans {source : String} {ls : List Lexeme}
    (h : Lexer.Scans source.toList ls []) :
    (lex source).issues = [] ∧ lexemes source = ls ++ [Lexeme.endOfInput] := by
  obtain ⟨fuel, depth, operand, place, hfuel, hissues, htokens⟩ :=
    h (source.toList.length + 1) 19 0 false ⟨1, 1⟩ (by simp)
  obtain ⟨fuel, rfl⟩ : ∃ n, fuel = n + 1 := ⟨fuel - 1, by omega⟩
  rw [List.append_nil] at hissues htokens
  exact ⟨hissues, htokens⟩

/-- The texts of names and numbers are names and numerals. -/
def Lexeme.Lawful : Lexeme → Prop
  | .ident name => isName name = true
  | .number text => isNumeral text = true
  | _ => True

namespace Lexer

theorem nameLexeme_lawful {c : Char} {cs : List Char} (hc : startsName c = true)
    (hcs : ∀ d ∈ cs, continuesName d = true) :
    (nameLexeme (String.ofList (c :: cs))).Lawful := by
  unfold nameLexeme
  split
  · trivial
  · next hword =>
      rw [Lexeme.Lawful, isName_iff, ← Word.ofText?_eq_none_iff]
      exact ⟨⟨c, cs, String.toList_ofList, hc, hcs⟩, hword⟩

/-- A property of what a table gives, by its first entry and the others. -/
theorem entry_ite {P : Lexeme → Prop} {p : Prop} [Decidable p] {one l : Lexeme}
    {others : Option Lexeme} (hone : P one) (hothers : others = some l → P l) :
    (if p then some one else others) = some l → P l := by
  intro hl
  split at hl
  · rw [← Option.some.inj hl]
    exact hone
  · exact hothers hl

/-- Symbols and brackets are neither names nor numbers. -/
theorem symbol_lawful {c d : Char} {l : Lexeme}
    (hl : double? c d = some l ∨ single? c = some l ∨ opening? c = some l ∨
      closing? c = some l) : l.Lawful := by
  have hnone : (none : Option Lexeme) = some l → l.Lawful := nofun
  rcases hl with hl | hl | hl | hl
  all_goals
    revert hl
    first | unfold double? | unfold single? | unfold opening? | unfold closing?
    repeat refine entry_ite trivial ?_
    exact hnone

theorem scanSymbol_lawful {depth : Nat} {c : Char} {cs : List Char} {l : Lexeme}
    (hl : (scanSymbol depth c cs).lexeme = some l) : l.Lawful := by
  have hsingle : ∀ rest, (scanSingle depth c rest).lexeme = some l →
      l.Lawful := by
    intro rest hl
    refine @symbol_lawful c c l ?_
    unfold scanSingle at hl
    revert hl
    cases single? c with
    | some one => exact fun hl => .inr (.inl hl)
    | none =>
        cases opening? c with
        | some two => exact fun hl => .inr (.inr (.inl hl))
        | none =>
            cases closing? c with
            | some three => exact fun hl => .inr (.inr (.inr hl))
            | none => exact fun hl => nomatch hl
  unfold scanSymbol at hl
  split at hl
  · split at hl
    · rename_i hlexeme
      exact symbol_lawful (.inl (hlexeme.trans hl))
    · exact hsingle _ hl
  · exact hsingle _ hl

theorem scan_lawful {depth : Nat} {c : Char} {cs : List Char} {l : Lexeme}
    (hl : (scan depth c cs).lexeme = some l) : l.Lawful := by
  by_cases hname : startsName c = true
  · rw [scan_name hname] at hl
    cases hl
    exact nameLexeme_lawful hname fun d hd => List.mem_takeWhile_imp hd
  · by_cases hnumber : startsNumber c cs = true
    · rw [scan_number hnumber] at hl
      cases hl
      exact isNumeral_of_spanNumber hnumber
    · unfold startsNumber at hnumber
      simp only [scan, if_neg hname, if_neg hnumber] at hl
      split at hl
      · split at hl
        · cases hl
        · cases hl
          trivial
      · split at hl
        · cases hl
          trivial
        · split at hl
          · cases hl
          · exact scanSymbol_lawful hl

/-- A step of the run adds at most the lexeme of its scan. -/
theorem run_tokens {c : Char} (hblank : isBlank c = false)
    (fuel budget depth : Nat) (operand : Bool) (place : Place)
    (cs : List Char) :
    ∃ (kept : Option Token) (budget' : Nat) (operand' : Bool) (place' : Place),
      (run (fuel + 1) (budget + 1) depth operand place (c :: cs)).tokens =
        kept.toList ++ (run fuel budget' (scan depth c cs).depth operand' place'
          (scan depth c cs).rest).tokens ∧
      ∀ token ∈ kept, (scan depth c cs).lexeme = some token.lexeme := by
  rw [run_cons hblank]
  refine ⟨_, _, _, _, rfl, fun token htoken => ?_⟩
  obtain ⟨l, hkeep, rfl⟩ := Option.map_eq_some_iff.mp htoken
  exact eq_some_of_keep hkeep

theorem run_lawful (fuel : Nat) :
    ∀ (budget depth : Nat) (operand : Bool) (place : Place) (cs : List Char),
      ∀ token ∈ (run fuel budget depth operand place cs).tokens,
        token.lexeme.Lawful := by
  have hfinish : ∀ (place : Place), ∀ token ∈ (Result.finish place).tokens,
      token.lexeme.Lawful := by
    intro place token htoken
    rw [Result.finish, List.mem_singleton] at htoken
    rw [htoken]
    trivial
  induction fuel with
  | zero => exact fun _ _ _ place _ => hfinish place
  | succ fuel ih =>
      intro budget depth operand place cs token htoken
      cases budget with
      | zero => exact hfinish place token htoken
      | succ budget =>
          cases cs with
          | nil => exact hfinish place token htoken
          | cons c cs =>
              by_cases hblank : isBlank c = true
              · rw [run, if_pos hblank] at htoken
                exact ih _ _ _ _ _ token htoken
              · obtain ⟨kept, budget', operand', place', htokens, hkept⟩ :=
                  run_tokens (Bool.eq_false_iff.mpr hblank) fuel budget depth
                    operand place cs
                rw [htokens, List.mem_append, Option.mem_toList] at htoken
                rcases htoken with htoken | htoken
                · exact scan_lawful (hkept token htoken)
                · exact ih _ _ _ _ _ token htoken

end Lexer

/-- Every name that the lexer finds is a name, and every number a numeral. -/
theorem lexemes_lawful (source : String) : ∀ l ∈ lexemes source, l.Lawful := by
  intro l hl
  obtain ⟨token, htoken, rfl⟩ := List.mem_map.mp hl
  exact Lexer.run_lawful _ _ _ _ _ _ token htoken

/-- The text is without fault, and these are its lexemes before the end of the
input. -/
def LexesTo (source : String) (ls : List Lexeme) : Prop :=
  (lex source).issues = [] ∧ lexemes source = ls ++ [.endOfInput]

theorem LexesTo.lawful {source : String} {ls : List Lexeme} (h : LexesTo source ls) :
    ∀ l ∈ ls, l.Lawful := by
  intro l hl
  have hmem : l ∈ lexemes source := by
    rw [h.2]
    exact List.mem_append_left _ hl
  exact lexemes_lawful source l hmem

theorem isNumeral_iff_lexesTo (text : String) :
    isNumeral text = true ↔ LexesTo text [.number text] := by
  constructor
  · intro htext
    exact lex_of_scans (Lexer.Scans.number htext Lexer.endsNumber_nil)
  · intro hlexes
    exact hlexes.lawful (.number text) List.mem_cons_self

/-- The lexer and the test of names agree on every text.  Blanks, line breaks,
comments, digits at the front, reserved words and characters outside of the alphabet
all give other lexemes, more than one, or none. -/
theorem isName_iff_lexesTo (name : String) :
    (isName name = true ↔ LexesTo name [.ident name]) ∧
      (LexesTo name [.ident name] ↔
        (∃ first rest, name.toList = first :: rest ∧ startsName first = true ∧
          ∀ c ∈ rest, continuesName c = true) ∧ name ∉ Word.all.map Word.text) := by
  have hlexes : isName name = true ↔ LexesTo name [.ident name] := by
    constructor
    · intro hname
      have hends : Lexer.EndsName [] := by simp [Lexer.EndsName]
      exact lex_of_scans (Lexer.Scans.ident hname hends)
    · intro hlexes
      exact hlexes.lawful (.ident name) List.mem_cons_self
  exact ⟨hlexes, hlexes.symm.trans isName_iff⟩

end SceneQuiz
