import SceneQuiz.Proofs.Parse.Locality
import SceneQuiz.Proofs.Token.Joined
/-!
Line breaks before the words of a construct.  A line break before any such word but
`in` changes nothing: the readers pass over it wherever they look for the word, and
everywhere else they stop at the line break as they stop at the word.  The word `in`
is looked for right after the name of a loop only, with no line break between, so
outside brackets it may not start a line.
-/

namespace SceneQuiz

namespace Parse

variable {ls ls' : List Lexeme}

theorem passContinuation_of_ne (h : ahead ls ≠ .newline) : passContinuation ls = ls :=
  if_neg fun hskip => h hskip.1

theorem passContinuation_newline (ls : List Lexeme) :
    passContinuation (.newline :: ls) =
      if (ahead ls).continuesStatement = true then ls else .newline :: ls := by
  simp [passContinuation]

/-- The same lexemes, or the second has one line break more, before a word of a
construct other than `in` and after no other line break. -/
inductive Broken : List Lexeme → List Lexeme → Prop
  | same {ls : List Lexeme} : Broken ls ls
  | here {w : Word} {ls : List Lexeme} : w.continues = true → w ≠ .inWord →
      Broken (.word w :: ls) (.newline :: .word w :: ls)
  /-- After a line break that was there the same has to be ahead. -/
  | cons {l : Lexeme} {ls ls' : List Lexeme} : (l = .newline → ahead ls' = ahead ls) →
      Broken ls ls' → Broken (l :: ls) (l :: ls')

namespace Broken

theorem tail (h : Broken ls ls') (hahead : ahead ls' = ahead ls) : Broken ls.tail ls'.tail := by
  cases h with
  | same => exact .same
  | here => cases hahead
  | cons _ hrest => exact hrest

/-- Past the line break, what is ahead is the same. -/
theorem passed (h : Broken ls ls') :
    Broken (passContinuation ls) (passContinuation ls') ∧
      ahead (passContinuation ls') = ahead (passContinuation ls) := by
  cases h with
  | same => exact ⟨.same, rfl⟩
  | @here w ls hw =>
      have hword : ahead (.word w :: ls) ≠ .newline := nofun
      have hcontinues : (ahead (.word w :: ls)).continuesStatement = true := hw
      rw [passContinuation_of_ne hword, passContinuation_newline, if_pos hcontinues]
      exact ⟨.same, rfl⟩
  | @cons l ls ls' hbreak hrest =>
      by_cases hl : l = .newline
      · subst hl
        rw [passContinuation_newline, passContinuation_newline, hbreak rfl]
        split
        · exact ⟨hrest, hbreak rfl⟩
        · exact ⟨.cons hbreak hrest, rfl⟩
      · have hpass : ∀ ls, passContinuation (l :: ls) = l :: ls :=
          fun ls => passContinuation_of_ne hl
        rw [hpass, hpass]
        exact ⟨.cons hbreak hrest, rfl⟩

theorem passNewlines (h : Broken ls ls') : Broken (passNewlines ls) (passNewlines ls') := by
  induction h with
  | same => exact .same
  | here => exact .same
  | @cons l ls ls' hbreak hrest ih =>
      cases l with
      | newline => exact ih
      | _ => exact .cons nofun hrest

theorem ahead_end (h : Broken ls ls') : ahead ls' = .endOfInput ↔ ahead ls = .endOfInput := by
  cases h with
  | same => exact Iff.rfl
  | here => exact iff_of_false nofun nofun
  | cons => exact Iff.rfl

theorem length_le (h : Broken ls ls') : ls.length ≤ ls'.length := by
  induction h with
  | same => exact Nat.le_refl _
  | here => exact Nat.le_succ _
  | cons _ _ ih => exact Nat.succ_le_succ ih

/-- A line break goes before a word of a construct wherever none stands yet. -/
theorem insert {w : Word} (hw : w.continues = true) (hin : w ≠ .inWord) (back : List Lexeme) :
    ∀ front : List Lexeme, front.getLast? ≠ some .newline →
      Broken (front ++ .word w :: back) (front ++ .newline :: .word w :: back)
  | [], _ => .here hw hin
  | [l], hlast => .cons (fun hl => absurd (congrArg some hl) hlast) (.here hw hin)
  | l :: m :: front, hlast => by
      rw [List.getLast?_cons_cons] at hlast
      exact .cons (fun _ => rfl) (insert hw hin back (m :: front) hlast)

end Broken

theorem meets_of_ahead_eq {R : List Lexeme → List Lexeme → Prop} (hahead : ahead ls' = ahead ls)
    (htail : R ls.tail ls'.tail) (l : Lexeme) : Meets R l ls ls' :=
  ⟨by rw [hahead], fun _ => htail⟩

theorem steers_broken : Steers Broken where
  agree h := by
    cases h with
    | same => exact .inl rfl
    | here hw => exact .inr ⟨hw, rfl⟩
    | cons => exact .inl rfl
  tail h hgoes := by
    cases h with
    | same => exact .same
    | @here w ls hw =>
        have hstops : w.continues = false := hgoes
        rw [hw] at hstops
        cases hstops
    | cons _ hrest => exact hrest
  passed h := ⟨h.passed.1, fun _ => meets_of_ahead_eq h.passed.2 (h.passed.1.tail h.passed.2) _⟩
  named h hname := by
    cases h with
    | same => exact ⟨.same, meets_of_ahead_eq rfl .same _⟩
    | here => cases hname
    | @cons l ls ls' _ hrest =>
        refine ⟨hrest, ?_⟩
        cases hrest with
        | same => exact meets_of_ahead_eq rfl .same _
        | here _ hin =>
            exact ⟨iff_of_false nofun fun hword => hin (Lexeme.word.inj hword),
              fun hword => absurd (Lexeme.word.inj hword) hin⟩
        | @cons m ls ls' _ hrest => exact ⟨Iff.rfl, fun _ => hrest⟩

/-- A line break that is passed over changes nothing of a whole text. -/
theorem readWhole_broken {e : Expr} {rest : List Lexeme} (h : Broken ls ls')
    (hread : readWhole ls = some (e, rest)) : ∃ rest', readWhole ls' = some (e, rest') := by
  have hls := h.passNewlines
  unfold readWhole at hread ⊢
  split at hread
  · cases hread
  · next hsome =>
      obtain ⟨found, hfound, hend⟩ := Option.bind_eq_some_iff.mp hread
      split at hend
      · next hlast =>
          cases hend
          have hfuel : 16 * ((passNewlines ls).length + 2) ≤
              16 * ((passNewlines ls').length + 2) :=
            Nat.mul_le_mul_left 16 (Nat.add_le_add_right hls.length_le 2)
          obtain ⟨left, hleft, hbroken⟩ :=
            (steers_broken.readers hfuel).level 0 .expression hls found hfound
          refine ⟨passNewlines left, ?_⟩
          rw [if_neg (mt hls.ahead_end.mp hsome), hleft]
          exact if_pos (hbroken.passNewlines.ahead_end.mpr hlast)
      · cases hend

/-- Before the end of the input stands an `in` with no name right before it. -/
inductive Astray : List Lexeme → Prop
  | here {ls : List Lexeme} : Astray (.word .inWord :: ls)
  | loop {name : String} {ls : List Lexeme} :
      Astray ls → Astray (.ident name :: .word .inWord :: ls)
  | cons {l : Lexeme} {ls : List Lexeme} : l ≠ .endOfInput →
      (∀ name, l = .ident name → ahead ls ≠ .word .inWord) → Astray ls → Astray (l :: ls)

namespace Astray

theorem tail (h : Astray ls) (hahead : ahead ls ≠ .word .inWord) : Astray ls.tail := by
  cases h with
  | here => exact absurd rfl hahead
  | loop => exact .here
  | cons _ _ hrest => exact hrest

theorem afterLoop (h : Astray ls) {name : String} (hname : ahead ls = .ident name)
    (hin : ahead ls.tail = .word .inWord) : Astray ls.tail.tail := by
  cases h with
  | here => cases hname
  | loop hrest => exact hrest
  | cons _ hnot _ => exact absurd hin (hnot name hname)

theorem passContinuation (h : Astray ls) : Astray (passContinuation ls) := by
  unfold Parse.passContinuation
  split
  · next hskip => exact h.tail (by rw [hskip.1]; nofun)
  · exact h

theorem passNewlines (h : Astray ls) : Astray (passNewlines ls) := by
  induction h with
  | here => exact .here
  | loop hrest => exact .loop hrest
  | @cons l ls hend hname hrest ih =>
      cases l with
      | newline => exact ih
      | _ => exact .cons hend hname hrest

theorem not_end (h : Astray ls) : ahead ls ≠ .endOfInput := by
  cases h with
  | here | loop => nofun
  | cons hend => exact hend

theorem of_append (back : List Lexeme) : ∀ front : List Lexeme, .endOfInput ∉ front →
    (∀ name, front.getLast? ≠ some (.ident name)) → Astray (front ++ .word .inWord :: back)
  | [], _, _ => .here
  | [l], hend, hname =>
      .cons (fun hl => hend (hl ▸ List.mem_cons_self))
        (fun name hl => absurd (congrArg some hl) (hname name)) .here
  | l :: m :: front, hend, hname => by
      obtain ⟨hl, hrest⟩ := List.ne_and_not_mem_of_not_mem_cons hend
      rw [List.getLast?_cons_cons] at hname
      by_cases hloop : ∃ name, l = .ident name ∧ m = .word .inWord
      · obtain ⟨name, rfl, rfl⟩ := hloop
        refine .loop (of_append back front (List.not_mem_of_not_mem_cons hrest) ?_)
        intro name hlast
        cases front with
        | nil => cases hlast
        | cons k front => exact hname name (by rw [List.getLast?_cons_cons, hlast])
      · exact .cons hl.symm (fun name hname hin => hloop ⟨name, hname, hin⟩)
          (of_append back (m :: front) hrest hname)

end Astray

theorem steers_astray : Steers fun ls ls' => ls' = ls ∧ Astray ls where
  agree h := .inl (by rw [h.1])
  tail h hgoes := by
    refine ⟨by rw [h.1], h.2.tail fun hin => ?_⟩
    rw [hin] at hgoes
    cases hgoes
  passed h := by
    obtain ⟨rfl, hastray⟩ := h
    refine ⟨⟨rfl, hastray.passContinuation⟩, fun hw => ⟨Iff.rfl, fun hword => ⟨rfl, ?_⟩⟩⟩
    exact hastray.passContinuation.tail (by rw [hword]; exact fun hin => hw (Lexeme.word.inj hin))
  named h hname := by
    obtain ⟨rfl, hastray⟩ := h
    exact ⟨⟨rfl, hastray.tail (by rw [hname]; nofun)⟩, Iff.rfl,
      fun hin => ⟨rfl, hastray.afterLoop hname hin⟩⟩

/-- An `in` is read right after a name only. -/
theorem readWhole_astray (h : Astray ls) : readWhole ls = none := by
  unfold readWhole
  rw [if_neg h.passNewlines.not_end]
  refine Option.bind_eq_none_iff.mpr fun found hfound => if_neg ?_
  obtain ⟨left, -, rfl, hleft⟩ := (steers_astray.readers (Nat.le_refl _)).level 0 .expression
    ⟨rfl, h.passNewlines⟩ found hfound
  exact hleft.passNewlines.not_end

/-- In a text that is read the name of the loop stands before the word. -/
theorem exists_name_before_in {front back : List Lexeme} {found : Expr × List Lexeme}
    (hopen : .endOfInput ∉ front)
    (hread : readWhole (front ++ .word .inWord :: back) = some found) :
    ∃ name, front.getLast? = some (.ident name) := by
  by_contra hnot
  rw [readWhole_astray (Astray.of_append back front hopen fun name h => hnot ⟨name, h⟩)] at hread
  cases hread

/-- A line break stands between the name and the word. -/
theorem readWhole_newline_in {front back : List Lexeme} (hopen : .endOfInput ∉ front) :
    readWhole (front ++ .newline :: .word .inWord :: back) = none := by
  have hastray : Astray (front ++ [Lexeme.newline] ++ .word .inWord :: back) := by
    refine Astray.of_append back (front ++ [Lexeme.newline]) (by simpa using hopen) ?_
    intro name hlast
    rw [List.getLast?_append] at hlast
    cases hlast
  rw [List.append_assoc, List.singleton_append] at hastray
  exact readWhole_astray hastray

end Parse

open Parse
open String (utf8Len)

theorem ne_newline_of_endsOperand {ls : List Lexeme}
    (h : ls.getLast?.elim false Lexeme.endsOperand = true) : ls.getLast? ≠ some .newline := by
  intro hlast
  rw [hlast] at h
  cases h

/-- The end of the input comes before no other token. -/
theorem endOfInput_not_mem {source : String} {front back : List Token} {token : Token}
    (htokens : (lex source).tokens = front ++ token :: back) :
    Lexeme.endOfInput ∉ front.map Token.lexeme := by
  obtain ⟨init, last, offsets, hinit, -, hstands, -⟩ := (lex_laid source).stands rfl
  intro hmem
  obtain ⟨first, hfirst, hend⟩ := List.mem_map.mp hmem
  have hdrop := congrArg List.dropLast (htokens.symm.trans hinit)
  rw [List.dropLast_append_cons, List.dropLast_concat] at hdrop
  refine Lexer.inside_of_stand hstands first ?_ hend
  rw [← hdrop]
  exact List.mem_append_left _ hfirst

namespace Expr

/-- An accepted expression with a line break before a word that continues a construct
is the same expression, unless the word is the `in` of a loop outside brackets: then it
is none. -/
theorem parse_lineBreak {source : String} {e : Expr} (hparse : Expr.parse source = .ok e)
    {front back : List Token} {token : Token} {w : Word}
    (htokens : (lex source).tokens = front ++ token :: back) (hword : token.lexeme = .word w)
    (hw : w.continues = true) {before rest : List Char} (hsource : source.toList = before ++ rest)
    (hplace : (token.span.line, token.span.column) = Source.location source (utf8Len before)) :
    (¬ (w = .inWord ∧ depthAfter 0 (front.map Token.lexeme) = 0) →
      Expr.parse (String.ofList (before ++ '\n' :: rest)) = .ok e) ∧
    (w = .inWord ∧ depthAfter 0 (front.map Token.lexeme) = 0 →
      ∀ e', Expr.parse (String.ofList (before ++ '\n' :: rest)) ≠ .ok e') := by
  obtain ⟨hissues, left, hread⟩ := (parse_eq_ok_iff source e).mp hparse
  have hlexemes : lexemes source =
      front.map Token.lexeme ++ .word w :: back.map Token.lexeme := by
    rw [lexemes, htokens, List.map_append, List.map_cons, hword]
  rw [hlexemes] at hread
  have hopen := endOfInput_not_mem htokens
  have hbroken := Lexer.lexed_lineBreak hissues htokens (by simp [hword]) (by simp [hword])
    hsource hplace
  have htext : (String.ofList (before ++ '\n' :: rest)).toList = before ++ '\n' :: rest :=
    String.toList_ofList
  rw [hword, ← htext, lexed_iff] at hbroken
  obtain ⟨hnone, hlexed⟩ := hbroken
  constructor
  · intro hkeeps
    rw [parse_eq_ok_iff, hlexed]
    refine ⟨hnone, ?_⟩
    split
    · next hcounts =>
        have hin : w ≠ .inWord := fun hin => hkeeps ⟨hin, hcounts.1⟩
        have hlast := ne_newline_of_endsOperand hcounts.2
        exact readWhole_broken (Broken.insert hw hin _ _ hlast) hread
    · exact ⟨left, hread⟩
  · rintro ⟨rfl, hdepth⟩ e' hparse'
    obtain ⟨-, left', hread'⟩ := (parse_eq_ok_iff _ e').mp hparse'
    obtain ⟨name, hname⟩ := exists_name_before_in hopen hread
    rw [hlexed, if_pos ⟨hdepth, by rw [hname]; rfl⟩, readWhole_newline_in hopen] at hread'
    cases hread'

/-- `for x in [1] do x` -/
def loopOverOne : Expr := .forIn "x" (.list [.number "1"]) (.ident "x")

/-- The body of the loop may start on a line of its own. -/
theorem loopOverOne_lineBreak :
    Expr.parse "for x in [1] do x" = .ok loopOverOne ∧
      Expr.parse (String.ofList ("for x in [1] ".toList ++ '\n' :: "do x".toList)) =
        .ok loopOverOne := by
  have hparse : Expr.parse "for x in [1] do x" = .ok loopOverOne := rfl
  have htokens : (lex "for x in [1] do x").tokens =
      (lex "for x in [1] do x").tokens.take 6 ++
        ⟨.word .doWord, ⟨1, 14, 1, 15⟩⟩ :: (lex "for x in [1] do x").tokens.drop 7 := rfl
  exact ⟨hparse, (parse_lineBreak hparse htokens rfl rfl rfl rfl).1 (by decide)⟩

/-- The word before the list may not. -/
theorem loopOverOne_lineBreak_in :
    Expr.parse "for x in [1] do x" = .ok loopOverOne ∧
      ∀ e, Expr.parse "for x \nin [1] do x" ≠ .ok e := by
  refine ⟨rfl, fun e => ?_⟩
  have hrejected : Expr.parse "for x \nin [1] do x" = .error
      [⟨.expected .colon .newline, ⟨1, 7, 2, 1⟩⟩] := rfl
  rw [hrejected]
  nofun

end Expr

end SceneQuiz
