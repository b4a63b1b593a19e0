import SceneQuiz.Expr.Usage
import SceneQuiz.Proofs.Expr.RoundTrip
import SceneQuiz.Proofs.Parse.StatementList
import SceneQuiz.Proofs.Token.Joined
/-!
Printing and reading back statement lists.  Flags follow their statement after
commas, and a semicolon ends each statement but the last, so the parser finds
the statements one by one.  The text of one list, a semicolon, a line break and the
text of another are read as the statements of both, and what both use is what each
of them uses.
-/

namespace SceneQuiz

open Parse Lexer

/-- The tree of the printed value of a flag, which is read as a sum. -/
def Flag.tree (flag : Flag) : Option Expr :=
  flag.value.map fun value =>
    value.enclosed (Binding.relational + 1) value.printed

def Flag.spell (flag : Flag) : List Lexeme :=
  .ident flag.name ::
    (match flag.tree with
      | some tree => .equal :: tree.spell
      | none => [])

def Flag.Printable (flag : Flag) : Prop :=
  isName flag.name = true ∧ ∀ value ∈ flag.value, value.Printable

/-- How deep reading the text of a flag goes. -/
def Flag.nesting (flag : Flag) : Nat := flag.tree.elim 0 Expr.depth

theorem Flag.scans_print {flag : Flag} (h : flag.Printable) {rest : List Char}
    (hrest : Expr.Ends rest) : Scans flag.print.toList flag.spell rest := by
  obtain ⟨name, value⟩ := flag
  obtain ⟨hname, hvalue⟩ := h
  cases value with
  | none =>
      have htext : (Flag.mk name none).print = name := by
        simp [Flag.print]
      rw [htext]
      exact Scans.ident hname hrest.name
  | some value =>
      have hprints := Expr.prints_wrap (Expr.prints (hvalue value rfl).1)
        (Binding.relational + 1)
      have hequal : Scans ['='] [.equal] _ :=
        Scans.symbol (by decide) (hprints.plain rest)
      have hvalue := hequal.append (hprints.scans rest hrest)
      rw [Flag.print, String.toList_append, String.toList_append]
      exact (Scans.ident hname (Expr.ends_cons (by decide) _).name).append hvalue

/-- What ends a flag: another one, the next statement or the end. -/
theorem Flag.readFlag_spell {flag : Flag} (h : flag.Printable)
    (hnesting : flag.nesting ≤ nestingLimit) {rest : List Lexeme}
    (hrest : follow (ahead rest) = 0) :
    readFlag (flag.spell ++ rest) = some (flag, rest) := by
  obtain ⟨name, value⟩ := flag
  cases value with
  | none =>
      have hequal : ahead rest ≠ .equal := by
        intro hahead
        rw [hahead] at hrest
        cases hrest
      simp [Flag.spell, Flag.tree, readFlag, passName?, hequal]
  | some value =>
      have hvalue := h.2 value rfl
      have hreads := reads (Expr.fits_enclosed value (Binding.relational + 1)
        (Expr.fits_printed hvalue.1))
      have hfits : (value.enclosed (Binding.relational + 1)
          value.printed).FitsAt .sum := Expr.fitsAt_enclosed value (by decide)
      have hsum := hreads.fitting hfits (by decide)
        (16 * (((value.enclosed (Binding.relational + 1) value.printed).spell ++
          rest).length + 2)) 0 rest
        (by simp only [List.length_append]; omega) (by rw [hrest]; decide)
      have hrecovers := ((Expr.recovers hvalue.1).enclosed (Binding.relational + 1)
        0 (Nat.zero_le _)).mpr ⟨hvalue.2, by rw [Nat.zero_add]; exact hnesting⟩
      rw [hrecovers] at hsum
      have hspell : (Flag.mk name (some value)).spell ++ rest =
          .ident name :: .equal :: ((value.enclosed (Binding.relational + 1)
            value.printed).spell ++ rest) := rfl
      rw [hspell]
      show (readAt _ 0 .sum _ >>= _) = _
      dsimp only [List.tail_cons]
      rw [hsum]
      rfl

def spellFlags (flags : List Flag) : List Lexeme :=
  flags.flatMap fun flag => .comma :: flag.spell

theorem scans_flags {flags : List Flag} (h : ∀ flag ∈ flags, flag.Printable)
    {rest : List Char} (hrest : Expr.Ends rest) :
    Scans (String.join (flags.map fun flag => ", " ++ flag.print)).toList
        (spellFlags flags) rest ∧
      Expr.Ends ((String.join (flags.map fun flag =>
        ", " ++ flag.print)).toList ++ rest) := by
  rw [String.toList_join, List.flatMap_map]
  induction flags with
  | nil => exact ⟨Scans.nil rest, hrest⟩
  | cons flag flags ih =>
      obtain ⟨hmore, hends⟩ := ih fun other hother =>
        h other (List.mem_cons_of_mem _ hother)
      have hflag := Flag.scans_print (h flag List.mem_cons_self) hends
      have hlead : ∀ rest, Scans ", ".toList [.comma] rest := fun rest =>
        (Scans.mark (by decide) _ : Scans [','] [.comma] _).append
          (Scans.blank rest)
      rw [List.flatMap_cons, spellFlags, List.flatMap_cons, String.toList_append]
      exact ⟨((hlead _).append hflag).append hmore, Expr.ends_cons (by decide) _⟩

/-- Each of some parts takes up at least the lexeme before it. -/
theorem length_le_flatMap {α : Type} (l : Lexeme) (spell : α → List Lexeme)
    (parts : List α) :
    parts.length ≤ (parts.flatMap fun part => l :: spell part).length := by
  induction parts with
  | nil => exact Nat.zero_le _
  | cons part parts ih =>
      rw [List.flatMap_cons, List.length_append, List.length_cons,
        List.length_cons]
      omega

/-- Neither a comma nor what ends the flags goes on with an expression. -/
theorem follow_spellFlags (flags : List Flag) {rest : List Lexeme}
    (hrest : follow (ahead rest) = 0) :
    follow (ahead (spellFlags flags ++ rest)) = 0 := by
  cases flags with
  | nil => exact hrest
  | cons => rfl

theorem readFlags_spell {flags : List Flag}
    (h : ∀ flag ∈ flags, flag.Printable ∧ flag.nesting ≤ nestingLimit)
    {fuel : Nat} (hfuel : flags.length ≤ fuel) {rest : List Lexeme}
    (hrest : follow (ahead rest) = 0) (hcomma : ahead rest ≠ .comma) :
    readFlags fuel (spellFlags flags ++ rest) = some (flags, rest) := by
  induction flags generalizing fuel with
  | nil =>
      cases fuel with
      | zero => rfl
      | succ fuel => exact if_neg hcomma
  | cons flag flags ih =>
      obtain ⟨fuel, rfl⟩ : ∃ n, fuel = n + 1 :=
        ⟨fuel - 1, by rw [List.length_cons] at hfuel; omega⟩
      obtain ⟨hflag, hnesting⟩ := h flag List.mem_cons_self
      have hmore := ih (fun other hother => h other (List.mem_cons_of_mem _ hother))
        (Nat.le_of_succ_le_succ hfuel)
      have hread := Flag.readFlag_spell hflag hnesting
        (follow_spellFlags flags hrest)
      have hspell : spellFlags (flag :: flags) ++ rest =
          .comma :: (flag.spell ++ (spellFlags flags ++ rest)) := by
        simp [spellFlags]
      rw [hspell, readFlags, ahead_cons, if_pos rfl, List.tail_cons, hread]
      show (readFlags fuel (spellFlags flags ++ rest) >>= _) = _
      rw [hmore]
      rfl

def Statement.spell (statement : Statement) : List Lexeme :=
  statement.expr.printed.spell ++ spellFlags statement.flags

def Statement.Printable (statement : Statement) : Prop :=
  statement.expr.Printable ∧ ∀ flag ∈ statement.flags, flag.Printable

/-- Reading the text of a statement goes no deeper than the parser does. -/
def Statement.Shallow (statement : Statement) : Prop :=
  statement.expr.nesting ≤ nestingLimit ∧
    ∀ flag ∈ statement.flags, flag.nesting ≤ nestingLimit

theorem Statement.scans_print {statement : Statement} (h : statement.Printable)
    {rest : List Char} (hrest : Expr.Ends rest) :
    Scans statement.print.toList statement.spell rest := by
  obtain ⟨hflags, hends⟩ := scans_flags h.2 hrest
  rw [Statement.print, String.toList_append]
  exact ((Expr.prints h.1.1).scans _ hends).append hflags

/-- What ends a statement in a printed text. -/
def EndsStatement (l : Lexeme) : Prop := l = .semicolon ∨ l = .endOfInput

theorem EndsStatement.facts {l : Lexeme} (h : EndsStatement l) :
    follow l = 0 ∧ l ≠ .comma ∧ l.isTerminator = true := by
  rcases h with rfl | rfl
  · exact ⟨rfl, nofun, rfl⟩
  · exact ⟨rfl, nofun, rfl⟩

theorem Statement.readStatement_spell {statement : Statement}
    (h : statement.Printable) (hshallow : statement.Shallow) {rest : List Lexeme}
    (hrest : EndsStatement (ahead rest)) :
    readStatement (statement.spell ++ rest) = some (statement, rest) := by
  obtain ⟨hfollow, hcomma, -⟩ := hrest.facts
  obtain ⟨expr, flags⟩ := statement
  obtain ⟨hexpr, hflags⟩ := h
  have hlast := follow_spellFlags flags hfollow
  have hlength : flags.length ≤ (spellFlags flags ++ rest).length := by
    rw [List.length_append]
    exact Nat.le_add_right_of_le (length_le_flatMap _ _ flags)
  have hread := (reads (Expr.fits_printed hexpr.1)).whole
    (16 * ((expr.printed.spell ++ (spellFlags flags ++ rest)).length + 2)) 0
    (spellFlags flags ++ rest) (by simp only [List.length_append]; omega)
    (by rw [hlast]; decide) fun _ => hlast
  have hrecovers := ((Expr.recovers hexpr.1).deeper 0).mpr
    ⟨hexpr.2, by rw [Nat.zero_add]; exact hshallow.1⟩
  have hmore := readFlags_spell
    (fun flag hflag => ⟨hflags flag hflag, hshallow.2 flag hflag⟩) hlength hfollow
    hcomma
  rw [hrecovers] at hread
  rw [Statement.spell, List.append_assoc, readStatement, hread]
  show (readFlags _ (spellFlags flags ++ rest) >>= _) = _
  rw [hmore]
  rfl

/-- The next lexeme starts an expression. -/
theorem Statement.opening_pos {statement : Statement} (h : statement.Printable)
    (rest : List Lexeme) : 0 < opening (ahead (statement.spell ++ rest)) := by
  rw [Statement.spell, List.append_assoc]
  exact Expr.opening_pos (Expr.fits_printed h.1.1) _

/-- The lexemes of further statements, each after a semicolon. -/
def spellStatements (statements : List Statement) : List Lexeme :=
  statements.flatMap fun statement => .semicolon :: statement.spell

theorem separates_of_opening {l : Lexeme} (h : 0 < opening l) :
    Parse.separates l = false ∧ l ≠ .endOfInput := by
  cases l with
  | semicolon | dollar | newline | endOfInput => cases h
  | _ => exact ⟨rfl, nofun⟩

theorem ahead_spellStatements (statements : List Statement) :
    EndsStatement (ahead (spellStatements statements ++ [Lexeme.endOfInput])) := by
  cases statements with
  | nil => exact .inr rfl
  | cons => exact .inl rfl

theorem dropWhile_spellStatements {statement : Statement}
    (h : statement.Printable) (rest : List Lexeme) :
    (statement.spell ++ rest).dropWhile Parse.separates = statement.spell ++ rest := by
  have hopening := statement.opening_pos h rest
  rcases hls : statement.spell ++ rest with _ | ⟨l, ls⟩
  · rfl
  · rw [hls, ahead_cons] at hopening
    rw [List.dropWhile_cons, (separates_of_opening hopening).1]
    rfl

/-- The lexemes of printed statements hold these statements.  The first has no
semicolon before it and the others have one, so the induction compares what is
ahead only after separators are dropped. -/
theorem lists_spell {statements : List Statement}
    (h : ∀ statement ∈ statements, statement.Printable ∧ statement.Shallow)
    {ls : List Lexeme}
    (hls : ls.dropWhile Parse.separates =
      (spellStatements statements ++ [Lexeme.endOfInput]).dropWhile Parse.separates) :
    Lists ls statements := by
  induction statements generalizing ls with
  | nil => exact .done (by rw [hls]; rfl)
  | cons statement statements ih =>
      obtain ⟨hprintable, hshallow⟩ := h statement List.mem_cons_self
      have hrest := ahead_spellStatements statements
      have hskip : ls.dropWhile Parse.separates = statement.spell ++
          (spellStatements statements ++ [Lexeme.endOfInput]) := by
        rw [hls, ← dropWhile_spellStatements hprintable]
        simp [spellStatements, Parse.separates, Lexeme.isTerminator]
      have hopening := statement.opening_pos hprintable
        (spellStatements statements ++ [Lexeme.endOfInput])
      have hread := Statement.readStatement_spell hprintable hshallow hrest
      rw [← hskip] at hopening hread
      exact .cons (separates_of_opening hopening).2 hread hrest.facts.2.2
        (ih (fun other hother => h other (List.mem_cons_of_mem _ hother)) rfl)

theorem Fragment.toList_print (statement : Statement)
    (statements : List Statement) :
    (Fragment.print (statement :: statements)).toList =
      statement.print.toList ++ statements.flatMap fun statement =>
        ';' :: '\n' :: statement.print.toList := by
  induction statements generalizing statement with
  | nil => simp [Fragment.print]
  | cons next statements ih =>
      have hmore := ih next
      rw [Fragment.print, List.map_cons] at hmore ⊢
      rw [List.map_cons, String.intercalate_cons_cons, String.toList_append,
        String.toList_append, hmore, List.flatMap_cons, List.append_assoc]
      rfl

theorem scans_statements {statements : List Statement}
    (h : ∀ statement ∈ statements, statement.Printable) :
    Scans (statements.flatMap fun statement =>
        ';' :: '\n' :: statement.print.toList) (spellStatements statements) [] ∧
      Expr.Ends (statements.flatMap fun statement =>
        ';' :: '\n' :: statement.print.toList) := by
  induction statements with
  | nil => exact ⟨Scans.nil [], Expr.ends_nil⟩
  | cons statement statements ih =>
      obtain ⟨hmore, hends⟩ := ih fun other hother =>
        h other (List.mem_cons_of_mem _ hother)
      rw [← List.append_nil (statements.flatMap _)] at hends
      have hstatement := Statement.scans_print (h statement List.mem_cons_self)
        hends
      rw [List.flatMap_cons, spellStatements, List.flatMap_cons]
      exact ⟨((Scans.semicolon _).append hstatement).append hmore,
        Expr.ends_cons (by decide) _⟩

/-- The lexemes of a statement list are those of its statements, but for the
semicolon before the first. -/
theorem Fragment.lex_print {fragment : Fragment}
    (h : ∀ statement ∈ fragment, statement.Printable) :
    (lex fragment.print).issues = [] ∧
      (lexemes fragment.print).dropWhile Parse.separates =
        (spellStatements fragment ++ [Lexeme.endOfInput]).dropWhile Parse.separates := by
  cases fragment with
  | nil =>
      have hempty : Scans (Fragment.print []).toList [] [] := Scans.nil []
      obtain ⟨hissues, hls⟩ := lex_of_scans hempty
      exact ⟨hissues, congrArg (List.dropWhile Parse.separates) hls⟩
  | cons statement statements =>
      obtain ⟨hmore, hends⟩ := scans_statements fun other hother =>
        h other (List.mem_cons_of_mem _ hother)
      rw [← List.append_nil (statements.flatMap _)] at hends
      have hscans := (Statement.scans_print (h statement List.mem_cons_self)
        hends).append hmore
      rw [← Fragment.toList_print] at hscans
      obtain ⟨hissues, hls⟩ := lex_of_scans hscans
      rw [hls]
      exact ⟨hissues, by simp [spellStatements, Parse.separates, Lexeme.isTerminator]⟩

/-- The text of a statement list is read as that list. -/
theorem Fragment.parse_print_of_printable {fragment : Fragment}
    (h : ∀ statement ∈ fragment, statement.Printable ∧ statement.Shallow) :
    Fragment.parse fragment.print = .ok fragment := by
  obtain ⟨hissues, hls⟩ := Fragment.lex_print fun statement hstatement =>
    (h statement hstatement).1
  exact Fragment.parse_eq_ok_iff.mpr ⟨hissues, lists_spell h hls⟩

/-- Code that is put together from printable nodes is read back from its text:
single expressions, and statement lists with their flags. -/
theorem print_parse_printable :
    (∀ e : Expr, e.Printable → e.nesting ≤ nestingLimit →
      Expr.parse e.print = .ok e) ∧
    ∀ fragment : Fragment,
      (∀ statement ∈ fragment, statement.Printable ∧ statement.Shallow) →
        Fragment.parse fragment.print = .ok fragment :=
  ⟨fun _ he hnesting => Expr.parse_print_of_printable he hnesting,
    fun _ h => Fragment.parse_print_of_printable h⟩

/-- `p : f(-2)` -/
def assignedCall : Expr :=
  .binary .assign (.ident "p") (.call "f" [.neg (.number "2")])

/-- An assignment with two flags, and the name it assigns to. -/
def assignedFragment : Fragment :=
  [⟨assignedCall, [⟨"simp", some (.bool false)⟩, ⟨"numer", none⟩]⟩,
    ⟨.ident "p", []⟩]

theorem printable_leaf {e : Expr} (hchildren : e.children = [])
    (hspelled : e.Spelled) (hfaithful : e.Faithful) : e.Printable :=
  ⟨.leaf hspelled hchildren, .leaf hfaithful hchildren⟩

theorem assignedCall_printable : assignedCall.Printable := by
  have hname : (Expr.ident "p").Printable := printable_leaf rfl rfl trivial
  have htwo : (Expr.number "2").Printable := printable_leaf rfl rfl trivial
  have hneg : (Expr.neg (.number "2")).Printable :=
    ⟨.node trivial ((Expr.forall_children_one rfl).mpr htwo.1),
      .node trivial ((Expr.forall_children_one rfl).mpr htwo.2)⟩
  have hcall : (Expr.call "f" [.neg (.number "2")]).Printable :=
    ⟨.node rfl ((Expr.forall_children_one rfl).mpr hneg.1),
      .node trivial ((Expr.forall_children_one rfl).mpr hneg.2)⟩
  exact ⟨.node trivial ((Expr.forall_children_two rfl).mpr ⟨hname.1, hcall.1⟩),
    .node trivial ((Expr.forall_children_two rfl).mpr ⟨hname.2, hcall.2⟩)⟩

theorem assignedFragment_printable :
    ∀ statement ∈ assignedFragment, statement.Printable ∧ statement.Shallow := by
  have hsimp : (Flag.mk "simp" (some (.bool false))).Printable := by
    refine ⟨rfl, fun value hvalue => ?_⟩
    cases hvalue
    exact printable_leaf rfl trivial trivial
  have hnumer : (Flag.mk "numer" none).Printable := ⟨rfl, nofun⟩
  refine List.forall_mem_cons.mpr ⟨⟨⟨assignedCall_printable, ?_⟩, ?_⟩,
    List.forall_mem_cons.mpr ⟨⟨⟨?_, nofun⟩, ?_⟩, nofun⟩⟩
  · exact List.forall_mem_cons.mpr
      ⟨hsimp, List.forall_mem_cons.mpr ⟨hnumer, nofun⟩⟩
  · exact ⟨by decide, by decide⟩
  · exact printable_leaf rfl rfl trivial
  · exact ⟨by decide, nofun⟩

theorem assignedFragment_reread :
    Expr.parse assignedCall.print = .ok assignedCall ∧
      Fragment.parse assignedFragment.print = .ok assignedFragment :=
  ⟨print_parse_printable.1 assignedCall assignedCall_printable (by decide),
    print_parse_printable.2 assignedFragment assignedFragment_printable⟩

namespace Usage

theorem union_assoc (a b c : Usage) : a ∪ b ∪ c = a ∪ (b ∪ c) := by
  have hnames : ∀ left middle right : NameSet,
      left ∪ middle ∪ right = left ∪ (middle ∪ right) := fun left middle right =>
    NameSet.eq_of_mem_iff fun name => by simp only [NameSet.mem_union, or_assoc]
  show Usage.mk _ _ _ = Usage.mk _ _ _
  rw [Usage.mk.injEq]
  exact ⟨hnames _ _ _, hnames _ _ _, hnames _ _ _⟩

theorem union_empty (a : Usage) : a ∪ empty = a := by
  have hnames : ∀ names : NameSet, names ∪ ∅ = names := fun names =>
    NameSet.eq_of_mem_iff fun name =>
      NameSet.mem_union.trans (or_iff_left (NameSet.not_mem_empty name))
  show Usage.mk _ _ _ = a
  rw [show (∅ : NameSet) = NameSet.empty from rfl] at hnames
  exact congr (congr (congrArg Usage.mk (hnames _)) (hnames _)) (hnames _)

end Usage

namespace Fragment

/-- What is used before some statements is used with what they use. -/
theorem foldl_usage (start : Usage) (fragment : Fragment) :
    fragment.foldl (fun usage statement => usage ∪ statement.usage) start =
      start ∪ fragment.usage := by
  induction fragment generalizing start with
  | nil => exact (Usage.union_empty start).symm
  | cons statement rest ih =>
      have hrest : Fragment.usage (statement :: rest) =
          Usage.empty ∪ statement.usage ∪ Fragment.usage rest := ih _
      rw [List.foldl_cons, ih, hrest, ← Usage.union_assoc, ← Usage.union_assoc,
        Usage.union_empty]

theorem usage_append (one two : Fragment) :
    Fragment.usage (one ++ two) = one.usage ∪ two.usage := by
  unfold Fragment.usage
  rw [List.foldl_append]
  exact foldl_usage _ two

open Lexer Parse

/-- Two texts that are read without issues, with a semicolon and a line break
between them, are read as the statements of the one and then those of the other,
and use what the one or the other uses. -/
theorem parse_join {a b : String} {one two : Fragment} (ha : Fragment.parse a = .ok one)
    (hb : Fragment.parse b = .ok two) :
    Fragment.parse (a ++ ";\n" ++ b) = .ok (one ++ two) ∧
      Fragment.usage (one ++ two) = one.usage ∪ two.usage := by
  obtain ⟨hissues, hone⟩ := Fragment.parse_eq_ok_iff.mp ha
  obtain ⟨hissues', htwo⟩ := Fragment.parse_eq_ok_iff.mp hb
  have hfirst : Lexed 0 false a.toList (lexemes a) := lexed_iff.mpr ⟨hissues, rfl⟩
  have hsecond : Lexed 0 false b.toList (lexemes b) := lexed_iff.mpr ⟨hissues', rfl⟩
  have hclosed : depthAfter 0 (lexemes a) = 0 := by
    obtain ⟨ls, hls⟩ := hfirst.ends (lexemes b)
    exact hone.depth hls 0
  obtain ⟨ls, hlexed, hls⟩ := hfirst.join hclosed hsecond
  have htext : (a ++ ";\n" ++ b).toList = a.toList ++ ';' :: '\n' :: b.toList := by
    simp
  rw [← htext, lexed_iff] at hlexed
  obtain ⟨hnone, rfl⟩ := hlexed
  exact ⟨Fragment.parse_eq_ok_iff.mpr ⟨hnone, hone.append hls htwo⟩, usage_append one two⟩

/-- `x : [1, 2]` -/
def assignedList : Fragment :=
  [⟨.binary .assign (.ident "x") (.list [.number "1", .number "2"]), []⟩]

/-- `f(x), simp` -/
def simplifiedCall : Fragment := [⟨.call "f" [.ident "x"], [⟨"simp", none⟩]⟩]

/-- The first text breaks a line inside brackets and ends in a comment. -/
theorem commentedText_join :
    Fragment.parse "x : [1,\n 2] /* done */" = .ok assignedList ∧
      Fragment.parse "f(x), simp\n" = .ok simplifiedCall ∧
      Fragment.parse ("x : [1,\n 2] /* done */" ++ ";\n" ++ "f(x), simp\n") =
        .ok (assignedList ++ simplifiedCall) ∧
      Fragment.usage (assignedList ++ simplifiedCall) =
        assignedList.usage ∪ simplifiedCall.usage := by
  have hone : Fragment.parse "x : [1,\n 2] /* done */" = .ok assignedList := rfl
  have htwo : Fragment.parse "f(x), simp\n" = .ok simplifiedCall := rfl
  exact ⟨hone, htwo, parse_join hone htwo⟩

end Fragment

end SceneQuiz
