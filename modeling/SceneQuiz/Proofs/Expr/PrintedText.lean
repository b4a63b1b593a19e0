import SceneQuiz.Proofs.Expr.Printed
/-!
The printed text of an expression and its lexemes.  Blanks, brackets and symbols
keep neighbouring names and numbers apart, so the lexer takes up the text of each
part as it stands in the tree of the printed text.
-/

namespace SceneQuiz

namespace Expr

open Lexer

theorem printBare_str (text : String) : (str text).printBare = stringLiteral text := rfl

theorem printBare_call (name : String) (args : List Expr) :
    (call name args).printBare = name ++ "(" ++ printItems args ++ ")" := rfl

theorem printBare_index (target : Expr) (indices : List Expr) :
    (index target indices).printBare =
      target.wrap Binding.suffix target.printBare ++ "[" ++ printItems indices ++ "]" := rfl

theorem printBare_list (items : List Expr) :
    (list items).printBare = "[" ++ printItems items ++ "]" := rfl

theorem printBare_set (items : List Expr) :
    (set items).printBare = "\x7b" ++ printItems items ++ "\x7d" := rfl

theorem printBare_group (items : List Expr) :
    (group items).printBare = "(" ++ printItems items ++ ")" := rfl

theorem printBare_neg (operand : Expr) :
    (neg operand).printBare =
      "-" ++ (if operand.isNegation then parenthesized operand.printBare
        else operand.wrap Binding.neg operand.printBare) := rfl

theorem printBare_not (operand : Expr) :
    (not operand).printBare = "not " ++ operand.wrap Binding.not operand.printBare := rfl

theorem printBare_quote (operand : Expr) :
    (quote operand).printBare = "'" ++ operand.wrap Binding.quote operand.printBare := rfl

theorem printBare_factorial (operand : Expr) :
    (factorial operand).printBare = operand.wrap Binding.suffix operand.printBare ++ "!" := rfl

theorem printBare_binary (op : BinOp) (left right : Expr) :
    (binary op left right).printBare =
      left.wrap (operandBindings op).1 left.printBare ++ op.spaced ++
        (if right.isNegation then parenthesized right.printBare
          else right.wrap (operandBindings op).2 right.printBare) := rfl

theorem printBare_cond (branches : List (Expr × Expr)) (otherwise : Option Expr) :
    (cond branches otherwise).printBare =
      printBranches "if " branches ++ otherwise.elim "" (" else " ++ ·.printBare) := by
  cases otherwise <;> rfl

theorem printBare_forIn (var : String) (source body : Expr) :
    (forIn var source body).printBare =
      "for " ++ var ++ " in " ++ source.wrap (Binding.control + 1) source.printBare ++
        " do " ++ body.printBare := rfl

theorem printBare_forRange (var : String) (first : Expr) (step : Option Expr)
    (last body : Expr) : (forRange var first step last body).printBare =
      "for " ++ var ++ ":" ++ first.wrap (Binding.control + 1) first.printBare ++
        step.elim "" (fun step =>
          " step " ++ step.wrap (Binding.control + 1) step.printBare) ++
        " thru " ++ last.wrap (Binding.control + 1) last.printBare ++
        " do " ++ body.printBare := by
  cases step <;> rfl

/-- Neither a name nor a number goes on with `rest`. -/
def Ends (rest : List Char) : Prop :=
  ∀ c ∈ rest.head?, continuesName c = false ∧ c ≠ '.'

theorem Ends.name {rest : List Char} (h : Ends rest) : EndsName rest :=
  fun c hc => (h c hc).1

theorem Ends.number {rest : List Char} (h : Ends rest) : EndsNumber rest := by
  intro c hc
  obtain ⟨hname, hpoint⟩ := h c hc
  refine ⟨?_, hpoint, ?_, ?_⟩
  · cases hdigit : c.isDigit with
    | false => rfl
    | true => simp [continuesName, hdigit] at hname
  · rintro rfl
    exact absurd hname (by decide)
  · rintro rfl
    exact absurd hname (by decide)

theorem ends_nil : Ends [] := nofun

theorem ends_cons {c : Char} (hc : continuesName c = false ∧ c ≠ '.')
    (rest : List Char) : Ends (c :: rest) := by
  intro d hd
  rw [List.head?_cons, Option.mem_some_iff] at hd
  rw [← hd]
  exact hc

/-- The text is taken up as the lexemes of the tree, and starts with nothing
that would make an operator before it longer. -/
structure Prints (text : String) (tree : Expr) : Prop where
  scans : ∀ rest, Ends rest → Scans text.toList tree.spell rest
  plain : ∀ rest, Plain (text.toList ++ rest)

theorem plain_cons {c : Char} (hc : c ≠ '=' ∧ c ≠ '*') (rest : List Char) :
    Plain (c :: rest) := by
  intro d hd
  rw [List.head?_cons, Option.mem_some_iff] at hd
  rw [← hd]
  exact hc

theorem prints_parenthesized {text : String} {tree : Expr}
    (h : Prints text tree) : Prints (parenthesized text) (group [tree]) := by
  have htext : (parenthesized text).toList = ['('] ++ (text.toList ++ [')']) := by
    simp [parenthesized]
  have hspell : (group [tree]).spell = [Lexeme.leftParen] ++
      (tree.spell ++ [Lexeme.rightParen]) := by
    simp [spell, spellItems, spellTail]
  constructor
  · intro rest hrest
    rw [htext, hspell]
    refine (Scans.mark (by decide) _).append (Scans.append ?_
      (Scans.mark (by decide) rest))
    exact h.scans _ (ends_cons (by decide) rest)
  · intro rest
    rw [htext]
    exact plain_cons (by decide) _

theorem prints_wrap {e : Expr} (h : Prints e.printBare e.printed)
    (least : Nat) :
    Prints (e.wrap least e.printBare) (e.enclosed least e.printed) := by
  unfold wrap enclosed
  split
  · exact prints_parenthesized h
  · exact h

theorem prints_wrapRight {e : Expr} (h : Prints e.printBare e.printed)
    (least : Nat) :
    Prints (if e.isNegation then parenthesized e.printBare
      else e.wrap least e.printBare) (e.enclosedRight least e.printed) := by
  unfold enclosedRight
  split
  · exact prints_parenthesized h
  · exact prints_wrap h least

/-- A reserved word and the blank after it. -/
theorem scans_lead (word : Word) (rest : List Char) :
    Scans (word.text.toList ++ [' ']) [.word word] rest :=
  (Scans.word word (ends_cons (by decide) rest).name).append (Scans.blank rest)

/-- A reserved word between blanks. -/
theorem scans_spaced (word : Word) (rest : List Char) :
    Scans (' ' :: (word.text.toList ++ [' '])) [.word word] rest :=
  (Scans.blank _).append (scans_lead word rest)

theorem spell_suffixed {suffix : Expr → Expr} {ls : List Lexeme}
    (hsuffix : ∀ target, (suffix target).spell = target.spell ++ ls)
    (target : Expr) : (suffixed suffix target).spell = target.spell ++ ls := by
  induction target using ofParts with
  | hstep target ih =>
      cases target with
      | quote operand =>
          rw [suffixed, spell, ih operand (by simp [children]), spell,
            List.cons_append]
      | _ => exact hsuffix _

/-- Text that follows a part ends its last name or number if its own first
character does, or if there is none and what comes after it does. -/
theorem ends_append {text rest : List Char} (htext : Ends text)
    (hrest : Ends rest) : Ends (text ++ rest) := by
  cases text with
  | nil => exact hrest
  | cons c text => exact htext

theorem ends_printTail (items : List Expr) : Ends (printTail items).toList := by
  cases items with
  | nil =>
      rw [printTail]
      exact ends_nil
  | cons item items =>
      have htext : (printTail (item :: items)).toList =
          ',' :: (' ' :: (item.printBare.toList ++ (printTail items).toList)) := by
        simp [printTail]
      rw [htext]
      exact ends_cons (by decide) _

theorem scans_printTail {items : List Expr}
    (hitems : ∀ item ∈ items, Prints item.printBare item.printed)
    {rest : List Char} (hrest : Ends rest) :
    Scans (printTail items).toList (spellTail (printedItems items)) rest := by
  induction items with
  | nil =>
      rw [printTail, printedItems, spellTail]
      exact Scans.nil rest
  | cons item items ih =>
      have hitem := hitems item List.mem_cons_self
      have hmore := ih fun other hother =>
        hitems other (List.mem_cons_of_mem _ hother)
      have htext : (printTail (item :: items)).toList =
          [','] ++ ([' '] ++ (item.printBare.toList ++ (printTail items).toList)) := by
        simp [printTail]
      have hends := ends_append (ends_printTail items) hrest
      rw [htext, printedItems, spellTail]
      refine (Scans.mark (by decide) _ : Scans [','] [.comma] _).append ?_
      exact (Scans.blank _).append ((hitem.scans _ hends).append hmore)

theorem scans_printItems {items : List Expr}
    (hitems : ∀ item ∈ items, Prints item.printBare item.printed)
    {rest : List Char} (hrest : Ends rest) :
    Scans (printItems items).toList (spellItems (printedItems items)) rest := by
  cases items with
  | nil =>
      rw [printItems, printedItems, spellItems]
      exact Scans.nil rest
  | cons item items =>
      have hends := ends_append (ends_printTail items) hrest
      rw [printItems, String.toList_append, printedItems, spellItems]
      exact ((hitems item List.mem_cons_self).scans _ hends).append
        (scans_printTail
          (fun other hother => hitems other (List.mem_cons_of_mem _ hother))
          hrest)

/-- Items between two brackets. -/
theorem scans_bracket {items : List Expr} {left right : Char} {l m : Lexeme}
    (hleft : (left, l) ∈ marks) (hright : (right, m) ∈ marks)
    (hend : continuesName right = false ∧ right ≠ '.')
    (hitems : ∀ item ∈ items, Prints item.printBare item.printed)
    (rest : List Char) :
    Scans (left :: ((printItems items).toList ++ [right]))
      (l :: (spellItems (printedItems items) ++ [m])) rest :=
  (Scans.mark hleft _).append
    ((scans_printItems hitems (ends_cons hend rest)).append
      (Scans.mark hright rest))

theorem ends_printBranches (branches : List (Expr × Expr)) :
    Ends (printBranches " elseif " branches).toList := by
  cases branches with
  | nil =>
      rw [printBranches]
      exact ends_nil
  | cons branch branches =>
      have hlead : " elseif ".toList = ' ' :: "elseif ".toList := rfl
      rw [printBranches, String.toList_append, String.toList_append,
        String.toList_append, String.toList_append, hlead]
      exact ends_cons (by decide) _

theorem scans_printBranches {branches : List (Expr × Expr)}
    (hbranches : ∀ branch ∈ branches,
      Prints branch.1.printBare branch.1.printed ∧
        Prints branch.2.printBare branch.2.printed)
    {lead : String} {l : Lexeme} (hlead : ∀ rest, Scans lead.toList [l] rest)
    {rest : List Char} (hrest : Ends rest) :
    Scans (printBranches lead branches).toList
      (spellBranches l (printedBranches branches)) rest := by
  induction branches generalizing lead l with
  | nil =>
      rw [printBranches, printedBranches, spellBranches]
      exact Scans.nil rest
  | cons branch branches ih =>
      obtain ⟨test, body⟩ := branch
      obtain ⟨htest, hbody⟩ := hbranches (test, body) List.mem_cons_self
      have helseif : ∀ rest, Scans " elseif ".toList [.word .elseifWord] rest :=
        fun rest => scans_spaced .elseifWord rest
      have hmore := ih (fun other hother =>
        hbranches other (List.mem_cons_of_mem _ hother)) helseif
      have hends := ends_append (ends_printBranches branches) hrest
      rw [printBranches, printedBranches, spellBranches]
      simp only [String.toList_append, List.append_assoc]
      refine (hlead _).append (((prints_wrap htest _).scans _ ?_).append
        ((scans_spaced .thenWord _ : Scans " then ".toList _ _).append
          (((prints_wrap hbody _).scans _ hends).append hmore)))
      exact ends_cons (by decide) _

theorem prints_number {text : String} (h : isNumeral text = true) :
    Prints text (number text) := by
  constructor
  · intro rest hrest
    exact Scans.number h hrest.number
  · intro rest
    rcases hlist : text.toList with _ | ⟨c, cs⟩
    · rw [isNumeral, hlist] at h
      cases h
    · have hof : String.ofList (c :: cs) = text := by
        rw [← hlist, String.ofList_toList]
      rw [← hof] at h
      obtain ⟨hstart, -⟩ := spanNumber_of_isNumeral h ends_nil.number
      refine plain_cons ⟨?_, ?_⟩ _
      · rintro rfl
        exact absurd hstart (by simp [startsNumber])
      · rintro rfl
        exact absurd hstart (by simp [startsNumber])

/-- A text that starts with a name is plain. -/
theorem plain_name {name : String} (h : isName name = true)
    (rest : List Char) : Plain (name.toList ++ rest) := by
  obtain ⟨⟨c, cs, hlist, hc, -⟩, -⟩ := isName_iff.mp h
  rw [hlist]
  refine plain_cons ⟨?_, ?_⟩ _
  · rintro rfl
    exact absurd hc (by decide)
  · rintro rfl
    exact absurd hc (by decide)

theorem prints_ident {name : String} (h : isName name = true) :
    Prints name (ident name) :=
  ⟨fun _ hrest => Scans.ident h hrest.name, plain_name h⟩

theorem prints_call {name : String} {args : List Expr} (h : isName name = true)
    (hargs : ∀ arg ∈ args, Prints arg.printBare arg.printed) :
    Prints (call name args).printBare (call name args).printed := by
  have htext : (call name args).printBare.toList =
      name.toList ++ '(' :: ((printItems args).toList ++ [')']) := by
    simp [printBare_call]
  constructor
  · intro rest hrest
    rw [htext, printed, spell]
    have hbracket : Scans ('(' :: ((printItems args).toList ++ [')']))
        (.leftParen :: (spellItems (printedItems args) ++ [Lexeme.rightParen])) rest :=
      scans_bracket (by decide) (by decide) (by decide) hargs rest
    exact (Scans.ident h (ends_cons (by decide) _).name).append hbracket
  · intro rest
    rw [htext, List.append_assoc]
    exact plain_name h _

theorem prints_index {target : Expr} {indices : List Expr}
    (htarget : Prints target.printBare target.printed)
    (hindices : ∀ e ∈ indices, Prints e.printBare e.printed) :
    Prints (index target indices).printBare (index target indices).printed := by
  have htext : (index target indices).printBare.toList =
      (target.wrap Binding.suffix target.printBare).toList ++
        '[' :: ((printItems indices).toList ++ [']']) := by
    simp [printBare_index]
  have hwrap := prints_wrap htarget Binding.suffix
  constructor
  · intro rest hrest
    rw [htext, printed, spell_suffixed fun _ => by rw [spell]]
    exact (hwrap.scans _ (ends_cons (by decide) _)).append
      (scans_bracket (by decide) (by decide) (by decide) hindices rest)
  · intro rest
    rw [htext, List.append_assoc]
    exact hwrap.plain _

/-- An operand after its operator. -/
theorem prints_after {lead text : String} {l : Lexeme} {tree operand : Expr}
    (hlead : ∀ rest, Scans lead.toList [l] rest)
    (hplain : ∀ rest, Plain (lead.toList ++ rest)) (h : Prints text operand)
    (htree : tree.spell = l :: operand.spell) : Prints (lead ++ text) tree := by
  constructor
  · intro rest hrest
    rw [String.toList_append, htree]
    exact (hlead _).append (h.scans rest hrest)
  · intro rest
    rw [String.toList_append, List.append_assoc]
    exact hplain _

theorem prints_factorial {operand : Expr}
    (h : Prints operand.printBare operand.printed) :
    Prints (factorial operand).printBare (factorial operand).printed := by
  have hwrap := prints_wrap h Binding.suffix
  constructor
  · intro rest hrest
    rw [printBare_factorial, String.toList_append, printed,
      spell_suffixed fun _ => by rw [spell]]
    exact (hwrap.scans _ (ends_cons (by decide) _)).append
      (Scans.mark (by decide) rest)
  · intro rest
    rw [printBare_factorial, String.toList_append, List.append_assoc]
    exact hwrap.plain _

theorem prints_binary {op : BinOp} {left right : Expr}
    (hleft : Prints left.printBare left.printed)
    (hright : Prints right.printBare right.printed) :
    Prints (binary op left right).printBare (binary op left right).printed := by
  have hone := prints_wrap hleft (operandBindings op).1
  have htwo := prints_wrapRight hright (operandBindings op).2
  have hblank : ∀ rest, Ends (op.spaced.toList ++ rest) := by
    intro rest
    cases op <;> exact ends_cons (by decide) _
  rw [printBare_binary, printed]
  constructor
  · intro rest hrest
    rw [String.toList_append, String.toList_append, List.append_assoc, spell]
    have htail := (Scans.operator op (htwo.plain rest)).append
      (htwo.scans rest hrest)
    refine (hone.scans _ ?_).append htail
    rw [List.append_assoc]
    exact hblank _
  · intro rest
    rw [String.toList_append, String.toList_append, List.append_assoc,
      List.append_assoc]
    exact hone.plain _

/-- A part after a word that stands between blanks. -/
theorem scans_part (word : Word) {text : String} {tree : Expr}
    (h : Prints text tree) {rest : List Char} (hrest : Ends rest) :
    Scans (' ' :: (word.text.toList ++ [' ']) ++ text.toList)
      (.word word :: tree.spell) rest :=
  (scans_spaced word _).append (h.scans rest hrest)

theorem prints_cond {branches : List (Expr × Expr)} {otherwise : Option Expr}
    (hne : branches ≠ [])
    (hbranches : ∀ branch ∈ branches,
      Prints branch.1.printBare branch.1.printed ∧
        Prints branch.2.printBare branch.2.printed)
    (hotherwise : ∀ body ∈ otherwise, Prints body.printBare body.printed) :
    Prints (cond branches otherwise).printBare (cond branches otherwise).printed := by
  have hif : ∀ rest, Scans "if ".toList [.word .ifWord] rest :=
    fun rest => scans_lead .ifWord rest
  have hplain : ∀ rest, Plain ((printBranches "if " branches).toList ++ rest) := by
    intro rest
    rcases branches with _ | ⟨⟨test, body⟩, branches⟩
    · exact absurd rfl hne
    · rw [printBranches]
      simp only [String.toList_append, List.append_assoc]
      exact plain_cons (by decide) _
  cases otherwise with
  | none =>
      rw [printBare_cond, printed, Option.elim_none, String.append_empty]
      refine ⟨fun rest hrest => ?_, hplain⟩
      rw [spell, List.append_nil]
      exact scans_printBranches hbranches hif hrest
  | some body =>
      rw [printBare_cond, printed, Option.elim_some]
      refine ⟨fun rest hrest => ?_, fun rest => ?_⟩
      · have helse := scans_part .elseWord (hotherwise body rfl) hrest
        rw [String.toList_append, String.toList_append, spell]
        refine (scans_printBranches hbranches hif ?_).append helse
        exact ends_cons (by decide) _
      · rw [String.toList_append, List.append_assoc]
        exact hplain _

/-- A loop starts with its word and its variable. -/
theorem scans_loop {var : String} (hvar : isName var = true)
    {rest : List Char} (hrest : Ends rest) :
    Scans ("for ".toList ++ var.toList) [.word .forWord, .ident var] rest :=
  (scans_lead .forWord _).append (Scans.ident hvar hrest.name)

theorem prints_forIn {var : String} {source body : Expr}
    (hvar : isName var = true) (hsource : Prints source.printBare source.printed)
    (hbody : Prints body.printBare body.printed) :
    Prints (forIn var source body).printBare (forIn var source body).printed := by
  rw [printBare_forIn, printed]
  constructor
  · intro rest hrest
    have hdo := scans_part .doWord hbody hrest
    have hin := (scans_part .inWord (prints_wrap hsource (Binding.control + 1))
      (ends_cons (by decide) _)).append hdo
    have hloop := (scans_loop hvar (ends_cons (by decide) _)).append hin
    rw [spell]
    simpa [Word.text] using hloop
  · intro rest
    simp only [String.toList_append, List.append_assoc]
    exact plain_cons (by decide) _

theorem prints_forRange {var : String} {first : Expr} {step : Option Expr}
    {last body : Expr} (hvar : isName var = true)
    (hfirst : Prints first.printBare first.printed)
    (hstep : ∀ e ∈ step, Prints e.printBare e.printed)
    (hlast : Prints last.printBare last.printed)
    (hbody : Prints body.printBare body.printed) :
    Prints (forRange var first step last body).printBare
      (forRange var first step last body).printed := by
  have hwrap := prints_wrap hfirst (Binding.control + 1)
  have hcolon : ∀ rest, Ends rest → Scans (':' :: (first.wrap
      (Binding.control + 1) first.printBare).toList) (.colon :: (first.enclosed
        (Binding.control + 1) first.printed).spell) rest := fun rest hrest =>
    (Scans.symbol (by decide) (hwrap.plain rest)).append (hwrap.scans rest hrest)
  constructor
  · intro rest hrest
    have hdo := scans_part .doWord hbody hrest
    have hthru := (scans_part .thruWord (prints_wrap hlast (Binding.control + 1))
      (ends_cons (by decide) _)).append hdo
    cases step with
    | none =>
        have hrange := (hcolon _ (ends_cons (by decide) _)).append hthru
        have hloop := (scans_loop hvar (ends_cons (by decide) _)).append hrange
        rw [printBare_forRange, printed, spell]
        simpa [Word.text] using hloop
    | some step =>
        have hmore := (scans_part .stepWord
          (prints_wrap (hstep step rfl) (Binding.control + 1))
          (ends_cons (by decide) _)).append hthru
        have hrange := (hcolon _ (ends_cons (by decide) _)).append hmore
        have hloop := (scans_loop hvar (ends_cons (by decide) _)).append hrange
        rw [printBare_forRange, printed, spell]
        simpa [Word.text] using hloop
  · intro rest
    cases step <;>
    · rw [printBare_forRange]
      simp only [String.toList_append, List.append_assoc]
      exact plain_cons (by decide) _

/-- Brackets, the lexemes that open and close them among the marks. -/
def brackets : List ((Char × Lexeme) × (Char × Lexeme)) :=
  [(('(', .leftParen), (')', .rightParen)),
    (('[', .leftBracket), (']', .rightBracket)),
    ((Char.ofNat 0x7b, .leftBrace), (Char.ofNat 0x7d, .rightBrace))]

/-- What stands between brackets of its own. -/
theorem prints_bracket {left right : Char} {l m : Lexeme}
    (hbracket : ((left, l), (right, m)) ∈ brackets) {inner : List Char} {ls : List Lexeme}
    (hinner : ∀ rest, Ends rest → Scans inner ls rest) {text : String} {tree : Expr}
    (htext : text.toList = left :: (inner ++ [right]))
    (htree : tree.spell = l :: (ls ++ [m])) : Prints text tree := by
  have hfacts : ∀ pair ∈ brackets, pair.1 ∈ marks ∧ pair.2 ∈ marks ∧
      (pair.1.1 ≠ '=' ∧ pair.1.1 ≠ '*') ∧
        continuesName pair.2.1 = false ∧ pair.2.1 ≠ '.' := by
    decide
  obtain ⟨hleft, hright, hplain, hend⟩ := hfacts _ hbracket
  constructor
  · intro rest _
    rw [htext, htree]
    exact (Scans.mark hleft _).append
      ((hinner _ (ends_cons hend rest)).append (Scans.mark hright rest))
  · intro rest
    rw [htext]
    exact plain_cons hplain _

theorem prints {e : Expr} (he : Everywhere Spelled e) :
    Prints e.printBare e.printed := by
  induction e using ofParts with
  | hstep e ih =>
      have hnode := he.here
      have hpart : ∀ part ∈ e.children, Prints part.printBare part.printed :=
        fun part hpart => ih part hpart (he.inside hpart)
      cases e with
      | number text => exact prints_number hnode
      | str text =>
          refine ⟨fun rest _ => Scans.str text rest, fun rest => ?_⟩
          rw [printBare_str, toList_stringLiteral]
          exact plain_cons (by decide) _
      | bool value =>
          cases value with
          | false => exact ⟨fun _ hrest => Scans.word .falseWord hrest.name,
              fun _ => plain_cons (by decide) _⟩
          | true => exact ⟨fun _ hrest => Scans.word .trueWord hrest.name,
              fun _ => plain_cons (by decide) _⟩
      | ident name => exact prints_ident hnode
      | call name args => exact prints_call hnode hpart
      | index target indices =>
          obtain ⟨htarget, hindices⟩ := forall_children_index.mp hpart
          exact prints_index htarget hindices
      | list items =>
          have hitems : ∀ item ∈ items, Prints item.printBare item.printed :=
            hpart
          exact prints_bracket (.tail _ (.head _)) (fun _ => scans_printItems hitems)
            (by simp [printBare_list]) (by rw [printed, spell])
      | set items =>
          have hitems : ∀ item ∈ items, Prints item.printBare item.printed :=
            hpart
          exact prints_bracket (.tail _ (.tail _ (.head _))) (fun _ => scans_printItems hitems)
            (by simp [printBare_set]) (by rw [printed, spell])
      | group items =>
          have hitems : ∀ item ∈ items, Prints item.printBare item.printed :=
            hpart
          exact prints_bracket (.head _) (fun _ => scans_printItems hitems)
            (by simp [printBare_group]) (by rw [printed, spell])
      | neg operand =>
          have hminus : ∀ rest, Scans "-".toList [.minus] rest :=
            Scans.mark (by decide)
          rw [printBare_neg, printed]
          exact prints_after hminus
            (fun _ => plain_cons (by decide) _)
            (prints_wrapRight (hpart operand List.mem_cons_self) _)
            (by rw [spell])
      | not operand =>
          rw [printBare_not, printed]
          exact prints_after (fun rest => scans_lead .notWord rest)
            (fun _ => plain_cons (by decide) _)
            (prints_wrap (hpart operand List.mem_cons_self) _) (by rw [spell])
      | quote operand =>
          have hquote : ∀ rest, Scans "'".toList [.quote] rest :=
            Scans.mark (by decide)
          rw [printBare_quote, printed]
          exact prints_after hquote
            (fun _ => plain_cons (by decide) _)
            (prints_wrap (hpart operand List.mem_cons_self) _) (by rw [spell])
      | factorial operand =>
          exact prints_factorial (hpart operand List.mem_cons_self)
      | binary op left right =>
          obtain ⟨hleft, hright⟩ := (forall_children_two rfl).mp hpart
          exact prints_binary hleft hright
      | cond branches otherwise =>
          obtain ⟨hbranches, hotherwise⟩ := forall_children_cond.mp hpart
          exact prints_cond hnode hbranches hotherwise
      | forIn var source body =>
          obtain ⟨hsource, hbody⟩ := (forall_children_two rfl).mp hpart
          exact prints_forIn hnode hsource hbody
      | forRange var first step last body =>
          obtain ⟨hfirst, hstep, hlast, hbody⟩ :=
            forall_children_forRange.mp hpart
          exact prints_forRange hnode hfirst hstep hlast hbody

end Expr

end SceneQuiz
