import SceneQuiz.Proofs.Expr.RoundTrip
import SceneQuiz.Proofs.Value.PrintedForm
/-!
Values read back from their texts.  Integers, truth values, lists and sets come
back as they are.  A text comes back with its quotes and backslashes only: every
other escape is read as the characters that it is written with.
-/

namespace SceneQuiz

namespace Text

/-- What a character between quotes is read as. -/
def rereadChar (c : Char) : List Char :=
  if c = '"' ∨ c = '\\' then [c] else (escapeChar c).toList

/-- What a quoted text is read as. -/
def reread (text : String) : String := String.ofList (text.toList.flatMap rereadChar)

/-- A character that stands for itself between quotes, or behind a backslash. -/
def isShown (c : Char) : Bool := isVisible c && !isExtending c

theorem rereadChar_cases (c : Char) :
    isShown c = true ∧ rereadChar c = [c] ∨ isShown c = false ∧ 2 ≤ (rereadChar c).length := by
  by_cases hescape : c = '"' ∨ c = '\\'
  · rw [rereadChar, if_pos hescape]
    rcases hescape with rfl | rfl <;> exact .inl ⟨by decide, rfl⟩
  · rw [rereadChar, if_neg hescape]
    rw [not_or] at hescape
    unfold escapeChar
    rw [if_neg hescape.1, if_neg hescape.2]
    split
    · next h => subst h; exact .inr (by decide)
    split
    · next h => subst h; exact .inr (by decide)
    split
    · next h => subst h; exact .inr (by decide)
    split
    · next h => subst h; exact .inr (by decide)
    split
    · next h =>
        refine .inr ⟨?_, by simp⟩
        rw [isShown]
        rcases Bool.or_eq_true_iff.mp h with hextending | hvisible
        · simp [hextending]
        · rw [Bool.not_eq_true'] at hvisible
          simp [hvisible]
    · next h => exact .inl ⟨by simpa [isShown, and_comm] using h, by simp [Char.toString]⟩

theorem length_le_flatMap_rereadChar (cs : List Char) :
    cs.length ≤ (cs.flatMap rereadChar).length := by
  induction cs with
  | nil => exact Nat.le_refl 0
  | cons c cs ih =>
      rw [List.flatMap_cons, List.length_append, List.length_cons]
      rcases rereadChar_cases c with ⟨-, hc⟩ | ⟨-, hc⟩
      · rw [hc, List.length_singleton]
        omega
      · omega

/-- No character makes up for one whose escape is not undone. -/
theorem flatMap_rereadChar_eq_iff (cs : List Char) :
    cs.flatMap rereadChar = cs ↔ ∀ c ∈ cs, isShown c = true := by
  induction cs with
  | nil => simp
  | cons c cs ih =>
      rw [List.forall_mem_cons, ← ih, List.flatMap_cons]
      rcases rereadChar_cases c with ⟨hshown, hc⟩ | ⟨hhidden, hc⟩
      · simp [hshown, hc]
      · refine ⟨fun heq => ?_, fun h => by rw [hhidden] at h; cases h.1⟩
        have hlength := congrArg List.length heq
        have hmore := length_le_flatMap_rereadChar cs
        rw [List.length_append, List.length_cons] at hlength
        omega

theorem reread_eq_iff (text : String) :
    reread text = text ↔ ∀ c ∈ text.toList, isShown c = true := by
  rw [reread, ← String.toList_inj, String.toList_ofList, flatMap_rereadChar_eq_iff]

end Text

namespace Lexer

open Text

/-- Characters that mean nothing in a string literal. -/
theorem spanString_plain {word : List Char} (hword : ∀ c ∈ word, c ≠ '"' ∧ c ≠ '\\')
    (rest : List Char) :
    spanString (word ++ rest) = ((word ++ (spanString rest).1.1, (spanString rest).1.2),
      word ++ (spanString rest).2.1, (spanString rest).2.2) := by
  induction word with
  | nil => rfl
  | cons c word ih =>
      obtain ⟨⟨hquote, hslash⟩, hmore⟩ := List.forall_mem_cons.mp hword
      rw [List.cons_append, spanString.eq_5 _ _ hquote (by simp [hslash]) (by simp [hslash]),
        ih hmore]
      rfl

/-- A backslash that escapes nothing stands for itself. -/
theorem spanString_slash {c : Char} {word : List Char}
    (hword : ∀ d ∈ c :: word, d ≠ '"' ∧ d ≠ '\\') (rest : List Char) :
    spanString ('\\' :: (c :: word) ++ rest) =
      (('\\' :: (c :: word) ++ (spanString rest).1.1, (spanString rest).1.2),
        '\\' :: (c :: word) ++ (spanString rest).2.1, (spanString rest).2.2) := by
  obtain ⟨hquote, hslash⟩ := hword c List.mem_cons_self
  have hplain := spanString_plain hword rest
  rw [List.cons_append, spanString.eq_5 _ _ (by decide) (by simp [hquote]) (by simp [hslash]),
    hplain]
  rfl

theorem spanString_escapeChar (c : Char) (rest : List Char) :
    spanString ((escapeChar c).toList ++ rest) =
      ((rereadChar c ++ (spanString rest).1.1, (spanString rest).1.2),
        (escapeChar c).toList ++ (spanString rest).2.1, (spanString rest).2.2) := by
  by_cases hescape : c = '"' ∨ c = '\\'
  · rcases hescape with rfl | rfl <;> rfl
  · rw [rereadChar, if_neg hescape]
    rw [not_or] at hescape
    rcases escapeChar_cases c with ⟨hc, hslash, hquote⟩ | ⟨mark, hmark, hc⟩ | hc <;> rw [hc]
    · exact spanString_plain (by simp [hslash, hquote]) rest
    · have hmarks : ∀ pair ∈ shortEscapes, pair.1 ≠ '"' ∧ pair.1 ≠ '\\' →
          pair.2 ≠ '"' ∧ pair.2 ≠ '\\' := by decide
      exact spanString_slash (List.forall_mem_singleton.mpr (hmarks _ hmark hescape)) rest
    · apply spanString_slash
      intro d hd
      simp only [List.mem_cons, List.mem_append, List.not_mem_nil, or_false] at hd
      rcases hd with rfl | rfl | hdigit | rfl
      · decide
      · decide
      · obtain ⟨digit, rfl⟩ := exists_digitChar hdigit
        exact ⟨Nat.digitChar_ne _ (by decide), Nat.digitChar_ne _ (by decide)⟩
      · decide

theorem spanString_quoted (text rest : List Char) :
    spanString (text.flatMap (fun c => (escapeChar c).toList) ++ '"' :: rest) =
      ((text.flatMap rereadChar, true),
        text.flatMap (fun c => (escapeChar c).toList) ++ ['"'], rest) := by
  induction text with
  | nil => rfl
  | cons c text ih =>
      rw [List.flatMap_cons, List.append_assoc, spanString_escapeChar, ih]
      simp

/-- A quoted text is one lexeme. -/
theorem Scans.quoted (text : String) (rest : List Char) :
    Scans (Text.quoted text).toList [.str (reread text)] rest := by
  rw [toList_quoted]
  refine Scans.lexeme (by decide) (by simp) fun depth => ⟨depth, ?_⟩
  rw [List.append_assoc, List.singleton_append]
  simp [scan, spanString_quoted, Step.ok, reread]

end Lexer

mutual

/-- The literal that stands for a value. -/
def Value.literal (value : Value) : Expr :=
  match value with
  | .int n => .int n
  | .float x => .float x
  | .str text => .str text
  | .bool truth => .bool truth
  | .list items => .list (Value.literals items)
  | .set items => .set (Value.literals items)
  | .symbol name => .ident name
termination_by structural value

def Value.literals (items : List Value) : List Expr :=
  match items with
  | [] => []
  | item :: rest => item.literal :: Value.literals rest
termination_by structural items

end

mutual

/-- The value with every text as it is read between quotes. -/
def Value.reread (value : Value) : Value :=
  match value with
  | .str text => .str (Text.reread text)
  | .list items => .list (Value.rereadItems items)
  | .set items => .set (Value.rereadItems items)
  | other => other
termination_by structural value

def Value.rereadItems (items : List Value) : List Value :=
  match items with
  | [] => []
  | item :: rest => item.reread :: Value.rereadItems rest
termination_by structural items

end

mutual

/-- How many values stand around the innermost one. -/
def Value.depth (value : Value) : Nat :=
  match value with
  | .list items | .set items => Value.depthOfItems items
  | _ => 0
termination_by structural value

def Value.depthOfItems (items : List Value) : Nat :=
  match items with
  | [] => 0
  | item :: rest => max (item.depth + 1) (Value.depthOfItems rest)
termination_by structural items

end

namespace Value

open SceneQuiz.Expr (Everywhere Spelled Faithful Prints)

theorem literals_eq (items : List Value) : literals items = items.map literal := by
  induction items with
  | nil => rfl
  | cons item rest ih => rw [literals, ih, List.map_cons]

theorem rereadItems_eq (items : List Value) : rereadItems items = items.map reread := by
  induction items with
  | nil => rfl
  | cons item rest ih => rw [rereadItems, ih, List.map_cons]

/-- Neither a float nor a symbol, and integers have 64 bits. -/
def HasStorableNode : Value → Prop
  | .int n => Decimal.fitsWord n = true
  | .float _ | .symbol _ => False
  | _ => True

/-- A value of integers, truth values, texts, lists and sets. -/
def Storable (value : Value) : Prop := value.Everywhere HasStorableNode

variable {value : Value}

theorem prints_int (n : Int) : Prints (toString n) (Expr.int n).printed := by
  have hdigits := Expr.prints_number (isNumeral_natCast n.natAbs)
  unfold Expr.int
  split
  · next hn =>
      rw [Decimal.toString_of_neg hn]
      exact Expr.prints_after (fun rest => Lexer.Scans.mark (by decide) rest)
        (fun _ => Expr.plain_cons (by decide) _) hdigits rfl
  · next hn =>
      rw [Decimal.toString_of_nonneg hn]
      exact hdigits

theorem ends_textOfItems (items : List Value) : Expr.Ends (textOfItems ", " items).toList := by
  cases items with
  | nil => exact Expr.ends_nil
  | cons item items =>
      rw [toList_textOfItems]
      exact Expr.ends_cons (by decide) _

/-- The items of a value after the first one. -/
theorem scans_tail {items : List Value}
    (hitems : ∀ item ∈ items, Prints item.text item.reread.literal.printed)
    {rest : List Char} (hrest : Expr.Ends rest) :
    Lexer.Scans (textOfItems ", " items).toList
      (Expr.spellTail (Expr.printedItems (literals (rereadItems items)))) rest := by
  induction items with
  | nil => exact Lexer.Scans.nil rest
  | cons item items ih =>
      rw [List.forall_mem_cons] at hitems
      have hends := Expr.ends_append (ends_textOfItems items) hrest
      rw [toList_textOfItems, rereadItems, literals, Expr.printedItems, Expr.spellTail]
      refine (Lexer.Scans.mark (by decide) _ : Lexer.Scans [','] [.comma] _).append ?_
      exact (Lexer.Scans.blank _).append ((hitems.1.scans _ hends).append (ih hitems.2))

theorem scans_items {items : List Value}
    (hitems : ∀ item ∈ items, Prints item.text item.reread.literal.printed)
    {rest : List Char} (hrest : Expr.Ends rest) :
    Lexer.Scans (textOfItems "" items).toList
      (Expr.spellItems (Expr.printedItems (literals (rereadItems items)))) rest := by
  cases items with
  | nil => exact Lexer.Scans.nil rest
  | cons item items =>
      rw [List.forall_mem_cons] at hitems
      have hends := Expr.ends_append (ends_textOfItems items) hrest
      rw [toList_textOfItems, rereadItems, literals, Expr.printedItems, Expr.spellItems]
      exact (hitems.1.scans _ hends).append (scans_tail hitems.2 hrest)

/-- The text of a value is taken up as the literal of the value that is read back. -/
theorem prints_text (h : value.Storable) : Prints value.text value.reread.literal.printed := by
  induction h with
  | @node value hnode _ ih =>
      cases value with
      | int n => exact prints_int n
      | str text =>
          refine ⟨fun rest _ => Lexer.Scans.quoted text rest, fun rest => ?_⟩
          rw [Value.text, Text.toList_quoted]
          exact Expr.plain_cons (by decide) _
      | bool truth =>
          have hbool : (Expr.bool truth).Everywhere Spelled := .leaf trivial rfl
          cases truth <;> exact Expr.prints hbool
      | list items =>
          exact Expr.prints_bracket (.tail _ (.head _)) (fun _ => scans_items ih)
            (toList_text_list items) rfl
      | set items =>
          exact Expr.prints_bracket (.tail _ (.tail _ (.head _))) (fun _ => scans_items ih)
            (toList_text_set items) rfl
      | float | symbol => exact hnode.elim

theorem Storable.reread (h : value.Storable) : value.reread.Storable := by
  induction h with
  | @node value hnode _ ih =>
      cases value with
      | list items | set items =>
          refine .node trivial fun item hitem => ?_
          rw [Value.reread, parts, rereadItems_eq, List.mem_map] at hitem
          obtain ⟨item, hmem, rfl⟩ := hitem
          exact ih item hmem
      | float | symbol => exact hnode.elim
      | _ => exact .leaf hnode rfl

theorem depthOfItems_congr {items : List Value} {f : Value → Value}
    (h : ∀ item ∈ items, (f item).depth = item.depth) :
    depthOfItems (items.map f) = depthOfItems items := by
  induction items with
  | nil => rfl
  | cons item items ih =>
      rw [List.forall_mem_cons] at h
      rw [List.map_cons, depthOfItems, depthOfItems, h.1, ih h.2]

theorem depth_reread (h : value.Storable) : value.reread.depth = value.depth := by
  induction h with
  | @node value hnode _ ih =>
      cases value with
      | list items | set items =>
          rw [Value.reread, depth, depth, rereadItems_eq]
          exact depthOfItems_congr ih
      | float | symbol => exact hnode.elim
      | _ => rfl

theorem printable_int (n : Int) : (Expr.int n).Printable := by
  have hnumber : (Expr.number (toString n.natAbs)).Printable :=
    ⟨.leaf (isNumeral_natCast _) rfl, .leaf trivial rfl⟩
  unfold Expr.int
  split
  · exact ⟨.node trivial ((Expr.forall_children_one rfl).mpr hnumber.1),
      .node trivial ((Expr.forall_children_one rfl).mpr hnumber.2)⟩
  · exact hnumber

theorem printable_literal (h : value.Storable) : value.literal.Printable := by
  induction h with
  | @node value hnode _ ih =>
      cases value with
      | int n => exact printable_int n
      | list items | set items =>
          have hitems : ∀ e ∈ literals items, e.Printable := by
            rw [literals_eq]
            exact List.forall_mem_map.mpr ih
          exact ⟨.node trivial fun e he => (hitems e he).1,
            .node trivial fun e he => (hitems e he).2⟩
      | float | symbol => exact hnode.elim
      | _ => exact ⟨.leaf trivial rfl, .leaf trivial rfl⟩

theorem depth_printed_int (n : Int) : (Expr.int n).printed.depth = 0 := by
  unfold Expr.int
  split <;> rfl

theorem depth_literals {items : List Value}
    (h : ∀ item ∈ items, item.literal.printed.depth = item.depth) :
    Expr.depthItems (Expr.printedItems (literals items)) = depthOfItems items := by
  induction items with
  | nil => rfl
  | cons item items ih =>
      rw [List.forall_mem_cons] at h
      rw [literals, Expr.printedItems, Expr.depthItems, depthOfItems, h.1, ih h.2]

/-- A literal nests as deeply as its value, and no sign adds to that. -/
theorem depth_literal (h : value.Storable) : value.literal.printed.depth = value.depth := by
  induction h with
  | @node value hnode _ ih =>
      cases value with
      | int n => exact depth_printed_int n
      | list items | set items => exact depth_literals ih
      | float | symbol => exact hnode.elim
      | _ => rfl

theorem ofExpr_int {n : Int} (h : Decimal.fitsWord n = true) :
    Datum.ofExpr (Expr.int n) = .int n := by
  have hread := Decimal.readWord?_toString_int h
  unfold Expr.int
  split
  · next hn =>
      rw [Decimal.toString_of_neg hn] at hread
      rw [Datum.ofExpr, Datum.ofNumber?, hread]
      rfl
  · next hn =>
      rw [Decimal.toString_of_nonneg hn] at hread
      rw [Datum.ofExpr, Datum.ofNumber?, hread]
      rfl

theorem ofExprs_literals {items : List Value}
    (h : ∀ item ∈ items, Datum.ofExpr item.literal = item.toDatum) :
    Datum.ofExprs (literals items) = toData items := by
  induction items with
  | nil => rfl
  | cons item items ih =>
      rw [List.forall_mem_cons] at h
      rw [literals, Datum.ofExprs, toData, h.1, ih h.2]

/-- The literal of a value is taken for the value, up to both limits of its integers. -/
theorem ofExpr_literal (h : value.Storable) : Datum.ofExpr value.literal = value.toDatum := by
  induction h with
  | @node value hnode _ ih =>
      cases value with
      | int n => exact ofExpr_int hnode
      | list items => exact congrArg Datum.list (ofExprs_literals ih)
      | set items => exact congrArg Datum.set (ofExprs_literals ih)
      | float | symbol => exact hnode.elim
      | _ => rfl

/-- The text of a value is read as the value with the texts that stand between its quotes. -/
theorem read_text (h : value.Storable) (hdepth : value.depth < nestingLimit) :
    Datum.read value.text = .ok value.reread.toDatum := by
  have hprintable := printable_literal h.reread
  have hnesting : value.reread.literal.nesting ≤ nestingLimit := by
    rw [Expr.nesting, depth_literal h.reread, depth_reread h]
    exact hdepth
  have hparse := (Expr.parse_eq_ok_iff_of_prints hprintable.1 (prints_text h)).mpr
    ⟨hprintable.2, hnesting⟩
  rw [Datum.read, hparse]
  exact congrArg Except.ok (ofExpr_literal h.reread)

theorem toData_injective {items : List Value}
    (h : ∀ item ∈ items, ∀ {other : Value}, item.toDatum = other.toDatum → item = other)
    {others : List Value} (heq : toData items = toData others) : items = others := by
  induction items generalizing others with
  | nil =>
      cases others with
      | nil => rfl
      | cons other others => cases heq
  | cons item items ih =>
      rw [List.forall_mem_cons] at h
      cases others with
      | nil => cases heq
      | cons other others =>
          obtain ⟨hfirst, hrest⟩ := List.cons.inj heq
          rw [h.1 hfirst, ih h.2 hrest]

/-- Values are handed on without loss. -/
theorem toDatum_injective (h : value.Storable) {other : Value}
    (heq : value.toDatum = other.toDatum) : value = other := by
  induction h generalizing other with
  | @node value hnode _ ih =>
      cases value with
      | list items =>
          cases other with
          | list others => exact congrArg Value.list (toData_injective ih (Datum.list.inj heq))
          | _ => cases heq
      | set items =>
          cases other with
          | set others => exact congrArg Value.set (toData_injective ih (Datum.set.inj heq))
          | _ => cases heq
      | float | symbol => exact hnode.elim
      | _ =>
          cases other <;> cases heq
          rfl

/-- A text of characters that stand for themselves or behind a backslash. -/
def HasShownText : Value → Prop
  | .str text => ∀ c ∈ text.toList, Text.isShown c = true
  | _ => True

theorem rereadItems_eq_self_iff (items : List Value) :
    rereadItems items = items ↔ ∀ item ∈ items, item.reread = item := by
  induction items with
  | nil => simp [rereadItems]
  | cons item items ih => rw [rereadItems, List.cons.injEq, ih, List.forall_mem_cons]

theorem reread_eq_self_iff (h : value.Storable) :
    value.reread = value ↔ value.Everywhere HasShownText := by
  induction h with
  | @node value hnode _ ih =>
      rw [everywhere_iff]
      cases value with
      | str text => simp [Value.reread, HasShownText, parts, Text.reread_eq_iff]
      | list items | set items =>
          have hitems : (∀ item ∈ items, item.reread = item) ↔
              ∀ item ∈ items, item.Everywhere HasShownText :=
            forall₂_congr ih
          simp [Value.reread, HasShownText, parts, rereadItems_eq_self_iff, hitems]
      | float | symbol => exact hnode.elim
      | _ => simp [Value.reread, HasShownText, parts]

/-- The text of a value of integers, truth values, texts, lists and sets can always be
read.  It is read as that value exactly if every character of its texts stands for
itself or behind a backslash. -/
theorem read_text_iff (h : value.Storable) (hdepth : value.depth < nestingLimit) :
    Datum.read value.text = .ok value.reread.toDatum ∧
      (Datum.read value.text = .ok value.toDatum ↔ value.Everywhere HasShownText) := by
  have hread := read_text h hdepth
  refine ⟨hread, ?_⟩
  rw [hread, Except.ok.injEq, ← reread_eq_self_iff h]
  exact ⟨toDatum_injective h.reread, congrArg toDatum⟩

/-- The least integer, and both characters that come back from behind a backslash. -/
def nestedValue : Value :=
  .list [.int (-0x8000000000000000), .set [.str "a\"b\\", .list []], .bool true]

theorem nestedValue_read :
    nestedValue.Storable ∧ nestedValue.depth < nestingLimit ∧
    Datum.read nestedValue.text = .ok nestedValue.toDatum := by
  have hdepth : nestedValue.depth < nestingLimit := by decide
  have hparts : nestedValue.Everywhere fun value => value.HasStorableNode ∧ value.HasShownText := by
    have hint : Decimal.fitsWord (-0x8000000000000000) = true := by decide
    have hstr : ∀ c ∈ "a\"b\\".toList, Text.isShown c = true :=
      List.all_eq_true.mp (by decide)
    refine .node ⟨trivial, trivial⟩ (List.forall_mem_cons.mpr ⟨.leaf ⟨hint, trivial⟩ rfl, ?_⟩)
    refine List.forall_mem_cons.mpr ⟨.node ⟨trivial, trivial⟩ ?_, ?_⟩
    · refine List.forall_mem_cons.mpr ⟨.leaf ⟨trivial, hstr⟩ rfl, ?_⟩
      exact List.forall_mem_cons.mpr ⟨.leaf ⟨trivial, trivial⟩ rfl, List.forall_mem_nil _⟩
    · exact List.forall_mem_cons.mpr ⟨.leaf ⟨trivial, trivial⟩ rfl, List.forall_mem_nil _⟩
  have hstorable : nestedValue.Storable := hparts.mono fun _ h => h.1
  exact ⟨hstorable, hdepth,
    (read_text_iff hstorable hdepth).2.mpr (hparts.mono fun _ h => h.2)⟩

/-- The line break is written as a backslash and a letter, and both are read. -/
theorem lineBreak_not_read_back :
    (Value.str "\n").Storable ∧ (Value.str "\n").depth < nestingLimit ∧
    Datum.read (Value.str "\n").text = .ok (.str "\\n") ∧
    Datum.read (Value.str "\n").text ≠ .ok (Value.str "\n").toDatum := by
  have hstorable : (Value.str "\n").Storable := .leaf trivial rfl
  have hdepth : (Value.str "\n").depth < nestingLimit := by decide
  have hread : Datum.read (Value.str "\n").text = .ok (.str "\\n") :=
    read_text hstorable hdepth
  refine ⟨hstorable, hdepth, hread, ?_⟩
  rw [hread]
  intro heq
  exact absurd (Datum.str.inj (Except.ok.inj heq)) (by decide)

end Value

end SceneQuiz
