import SceneQuiz.Machine.Value
import SceneQuiz.Proofs.Decimal.WholeNumber
import SceneQuiz.Proofs.Token.Scanning
/-!
What the text of a value says about it.  Without floats, and with symbols that
are names, a value can be told from its text, also where the text goes on: texts
of numbers, truth values and symbols end before the first character that could
not stand in a word, quoted texts at the first quote without an escape, lists
and sets at their closing bracket.
-/

namespace SceneQuiz

namespace Value

/-- The items of a list, the members of a set. -/
def parts : Value → List Value
  | .list items | .set items => items
  | _ => []

/-- A property of single values that a value has and every value inside it. -/
inductive Everywhere (good : Value → Prop) : Value → Prop where
  | node {value : Value} : good value → (∀ part ∈ value.parts, Everywhere good part) →
      Everywhere good value

namespace Everywhere

variable {good : Value → Prop} {value : Value}

theorem leaf (hnode : good value) (hparts : value.parts = []) : value.Everywhere good :=
  .node hnode (by simp [hparts])

theorem here (h : value.Everywhere good) : good value := by
  cases h with
  | node hnode _ => exact hnode

theorem inside (h : value.Everywhere good) {part : Value} (hpart : part ∈ value.parts) :
    part.Everywhere good := by
  cases h with
  | node _ hparts => exact hparts part hpart

theorem mono {other : Value → Prop} (himp : ∀ value, good value → other value)
    (h : value.Everywhere good) : value.Everywhere other := by
  induction h with
  | node hnode _ ih => exact .node (himp _ hnode) ih

end Everywhere

theorem everywhere_iff {good : Value → Prop} {value : Value} :
    value.Everywhere good ↔ good value ∧ ∀ part ∈ value.parts, part.Everywhere good :=
  ⟨fun h => ⟨h.here, fun _ hpart => h.inside hpart⟩, fun h => .node h.1 h.2⟩

end Value

namespace Text

/-- Escapes of two characters, by what they stand for. -/
def shortEscapes : List (Char × Char) :=
  [(Char.ofNat 0, '0'), ('\t', 't'), ('\n', 'n'), ('\r', 'r'), ('"', '"'), ('\\', '\\')]

/-- A character stands for itself, behind a backslash, or by its code point. -/
theorem escapeChar_cases (c : Char) :
    ((escapeChar c).toList = [c] ∧ c ≠ '\\' ∧ c ≠ '"') ∨
      (∃ mark, (c, mark) ∈ shortEscapes ∧ (escapeChar c).toList = ['\\', mark]) ∨
      (escapeChar c).toList = '\\' :: 'u' :: '\x7b' :: (Nat.toDigits 16 c.toNat ++ ['\x7d']) := by
  unfold escapeChar
  split
  · next h => exact .inr (.inl ⟨'0', by simp [shortEscapes, h], rfl⟩)
  split
  · next h => exact .inr (.inl ⟨'t', by simp [shortEscapes, h], rfl⟩)
  split
  · next h => exact .inr (.inl ⟨'n', by simp [shortEscapes, h], rfl⟩)
  split
  · next h => exact .inr (.inl ⟨'r', by simp [shortEscapes, h], rfl⟩)
  split
  · next h => exact .inr (.inl ⟨'"', by simp [shortEscapes, h], rfl⟩)
  split
  · next h => exact .inr (.inl ⟨'\\', by simp [shortEscapes, h], rfl⟩)
  split
  · exact .inr (.inr (by simp [hexDigits]))
  · next hquote hslash _ => exact .inl ⟨by simp [Char.toString], hslash, hquote⟩

theorem exists_digitChar {c : Char} {n : Nat} (h : c ∈ Nat.toDigits 16 n) :
    ∃ digit, c = Nat.digitChar digit := by
  induction n using Nat.strongRecOn with
  | ind n ih =>
      rcases Nat.lt_or_ge n 16 with hn | hn
      · rw [Nat.toDigits_of_lt_base hn, List.mem_singleton] at h
        exact ⟨n, h⟩
      · rw [Nat.toDigits_of_base_le (by decide) hn, List.mem_append, List.mem_singleton] at h
        rcases h with hmore | hlast
        · exact ih (n / 16) (by omega) hmore
        · exact ⟨n % 16, hlast⟩

/-- Words are as long as they can be. -/
theorem word_unique {p : Char → Bool} {word other rest more : List Char}
    (hword : ∀ c ∈ word, p c = true) (hother : ∀ c ∈ other, p c = true)
    (hrest : ∀ c ∈ rest.head?, p c = false) (hmore : ∀ c ∈ more.head?, p c = false)
    (h : word ++ rest = other ++ more) : word = other ∧ rest = more := by
  have hspan := Lexer.span_append hword hrest
  rw [h, Lexer.span_append hother hmore] at hspan
  exact ⟨(congrArg Prod.fst hspan).symm, (congrArg Prod.snd hspan).symm⟩

theorem escapeChar_unique {c d : Char} {rest more : List Char}
    (h : (escapeChar c).toList ++ rest = (escapeChar d).toList ++ more) :
    c = d ∧ rest = more := by
  have hmarks : ∀ one ∈ shortEscapes, one.2 ≠ 'u' ∧
      ∀ two ∈ shortEscapes, one.2 = two.2 → one.1 = two.1 := by decide
  rcases escapeChar_cases c with ⟨hc, hslash, -⟩ | ⟨mark, hmark, hc⟩ | hc <;>
    rcases escapeChar_cases d with ⟨hd, hother, -⟩ | ⟨sign, hsign, hd⟩ | hd <;>
    rw [hc, hd] at h <;> simp only [List.cons_append, List.cons.injEq, List.nil_append] at h
  · exact h
  · exact absurd h.1 hslash
  · exact absurd h.1 hslash
  · exact absurd h.1.symm hother
  · exact ⟨(hmarks _ hmark).2 _ hsign h.2.1, h.2.2⟩
  · exact absurd h.2.1 (hmarks _ hmark).1
  · exact absurd h.1.symm hother
  · exact absurd h.2.1.symm (hmarks _ hsign).1
  · have hdigits : ∀ n, ∀ e ∈ Nat.toDigits 16 n, (e != '\x7d') = true := by
      intro n e he
      obtain ⟨digit, rfl⟩ := exists_digitChar he
      exact bne_iff_ne.mpr (Nat.digitChar_ne _ (by decide))
    obtain ⟨hcode, hrest⟩ := word_unique (hdigits c.toNat) (hdigits d.toNat) (by simp) (by simp)
      (by simpa using h.2.2.2 : Nat.toDigits 16 c.toNat ++ '\x7d' :: rest =
        Nat.toDigits 16 d.toNat ++ '\x7d' :: more)
    exact ⟨Char.toNat_inj.mp (Decimal.toDigits_injective (by decide) (by decide) hcode),
      (List.cons.inj hrest).2⟩

/-- Escaped characters up to a quote without an escape. -/
theorem quoted_unique {text other rest more : List Char}
    (h : text.flatMap (fun c => (escapeChar c).toList) ++ '"' :: rest =
      other.flatMap (fun c => (escapeChar c).toList) ++ '"' :: more) :
    text = other ∧ rest = more := by
  have hquote : ∀ c rest more, (escapeChar c).toList ++ rest ≠ '"' :: more := by
    intro c rest more heq
    rcases escapeChar_cases c with ⟨hc, -, hne⟩ | ⟨mark, -, hc⟩ | hc <;> rw [hc] at heq
    · exact hne (List.cons.inj heq).1
    · exact absurd (List.cons.inj heq).1 (by decide)
    · exact absurd (List.cons.inj heq).1 (by decide)
  induction text generalizing other with
  | nil =>
      cases other with
      | nil => exact ⟨rfl, (List.cons.inj h).2⟩
      | cons d other =>
          rw [List.flatMap_cons, List.append_assoc] at h
          exact absurd h.symm (hquote d _ _)
  | cons c text ih =>
      cases other with
      | nil =>
          rw [List.flatMap_cons, List.append_assoc] at h
          exact absurd h (hquote c _ _)
      | cons d other =>
          rw [List.flatMap_cons, List.flatMap_cons, List.append_assoc, List.append_assoc] at h
          obtain ⟨rfl, hmore⟩ := escapeChar_unique h
          obtain ⟨rfl, hrest⟩ := ih hmore
          exact ⟨rfl, hrest⟩

theorem toList_quoted (s : String) :
    (quoted s).toList = '"' :: (s.toList.flatMap (fun c => (escapeChar c).toList) ++ ['"']) := by
  simp [quoted, String.toList_join, List.flatMap_def, Function.comp_def]

end Text

namespace Value

/-- Characters that a number, a truth value or a symbol is written with. -/
def isWordChar (c : Char) : Bool := continuesName c || c == '-'

/-- No word goes on with `rest`. -/
def EndsWord (rest : List Char) : Prop := ∀ c ∈ rest.head?, isWordChar c = false

/-- A value that is written as one word. -/
def isWord : Value → Bool
  | .int _ | .bool _ | .symbol _ => true
  | _ => false

/-- No float, and symbols are names. -/
def HasLegibleNode : Value → Prop
  | .float _ => False
  | .symbol name => isName name = true
  | _ => True

/-- A value that can be told from its text. -/
def Legible (value : Value) : Prop := value.Everywhere HasLegibleNode

/-- Truth values and symbols start with a letter, an underscore or a percent sign. -/
theorem text_startsName {value : Value} (hword : value.isWord = true)
    (hnode : value.HasLegibleNode) (hint : ∀ n, value ≠ .int n) :
    ∃ first rest, value.text.toList = first :: rest ∧ startsName first = true ∧
      ∀ c ∈ rest, continuesName c = true := by
  cases value with
  | int n => exact absurd rfl (hint n)
  | bool truth => cases truth <;> exact ⟨_, _, rfl, by decide, List.all_eq_true.mp (by decide)⟩
  | symbol name => exact (isName_iff.mp hnode).1
  | _ => cases hword

theorem word_text {value : Value} (hword : value.isWord = true) (hnode : value.HasLegibleNode) :
    value.text.toList ≠ [] ∧ ∀ c ∈ value.text.toList, isWordChar c = true := by
  by_cases hint : ∃ n, value = .int n
  · obtain ⟨n, rfl⟩ := hint
    rw [text]
    refine ⟨?_, fun c hc => ?_⟩
    · rw [Decimal.toList_toString]
      split <;> simp
    · rcases Decimal.isDigit_or_sign_of_mem hc with hdigit | rfl
      · simp [isWordChar, continuesName, hdigit]
      · decide
  · obtain ⟨first, rest, htext, hfirst, hrest⟩ :=
      text_startsName hword hnode fun n heq => hint ⟨n, heq⟩
    rw [htext]
    refine ⟨List.cons_ne_nil _ _, List.forall_mem_cons.mpr ⟨?_, fun c hc => ?_⟩⟩
    · simp [isWordChar, continuesName, hfirst]
    · simp [isWordChar, hrest c hc]

/-- No integer is written as a truth value or a symbol is. -/
theorem text_int_ne {n : Int} {value : Value} (hword : value.isWord = true)
    (hnode : value.HasLegibleNode) (hint : ∀ n, value ≠ .int n) :
    (Value.int n).text ≠ value.text := by
  intro heq
  obtain ⟨first, rest, htext, hfirst, -⟩ := text_startsName hword hnode hint
  have hmem : first ∈ (toString n).toList := by
    rw [show toString n = value.text from heq, htext]
    exact List.mem_cons_self
  rcases Decimal.isDigit_or_sign_of_mem hmem with hdigit | rfl
  · obtain ⟨-, -, -, -, hno⟩ := Lexer.startsName_facts hfirst
    rw [hno] at hdigit
    cases hdigit
  · exact absurd hfirst (by decide)

theorem word_injective {value other : Value} (hvalue : value.isWord = true)
    (hother : other.isWord = true) (hnode : value.HasLegibleNode) (hseen : other.HasLegibleNode)
    (h : value.text = other.text) : value = other := by
  have hreserved : ∀ {truth : Bool} {name : String}, isName name = true →
      (Value.bool truth).text ≠ name := by
    intro truth name hname heq
    cases truth <;> exact absurd (heq ▸ hname) (by decide)
  cases value with
  | int m =>
      cases other with
      | int n => exact congrArg Value.int (Decimal.toString_int_injective h)
      | bool | symbol => exact absurd h (text_int_ne hother hseen nofun)
      | _ => cases hother
  | bool truth =>
      cases other with
      | int n => exact absurd h.symm (text_int_ne hvalue hnode nofun)
      | bool seen => cases truth <;> cases seen <;> first | rfl | exact absurd h (by decide)
      | symbol name => exact absurd h (hreserved hseen)
      | _ => cases hother
  | symbol name =>
      cases other with
      | int n => exact absurd h.symm (text_int_ne hvalue hnode nofun)
      | bool truth => exact absurd h.symm (hreserved hnode)
      | symbol other => exact congrArg Value.symbol h
      | _ => cases hother
  | _ => cases hvalue

theorem toList_textOfItems (lead : String) (item : Value) (rest : List Value) :
    (textOfItems lead (item :: rest)).toList =
      lead.toList ++ (item.text.toList ++ (textOfItems ", " rest).toList) := by
  simp [textOfItems]

/-- The bracket that a list or a set is closed with. -/
def IsClosing (c : Char) : Prop := c = ']' ∨ c = '\x7d'

theorem toList_text_list (items : List Value) :
    (Value.list items).text.toList = '[' :: ((textOfItems "" items).toList ++ [']']) := by
  rw [text, String.toList_append, String.toList_append]
  rfl

theorem toList_text_set (items : List Value) :
    (Value.set items).text.toList = '\x7b' :: ((textOfItems "" items).toList ++ ['\x7d']) := by
  rw [text, String.toList_append, String.toList_append]
  rfl

/-- What a value that is no word opens with. -/
def opening : Value → Char
  | .str _ => '"'
  | .list _ => '['
  | _ => '\x7b'

theorem head_text_of_not_word {value : Value} (hword : value.isWord = false)
    (hnode : value.HasLegibleNode) : ∃ rest, value.text.toList = value.opening :: rest := by
  cases value with
  | str text => exact ⟨_, Text.toList_quoted text⟩
  | list items => exact ⟨_, toList_text_list items⟩
  | set items => exact ⟨_, toList_text_set items⟩
  | float => exact hnode.elim
  | _ => cases hword

theorem opening_facts (value : Value) : value.opening ≠ ',' ∧ ¬ IsClosing value.opening ∧
    isWordChar value.opening = false := by
  cases value <;> simp only [opening, IsClosing] <;> decide

theorem head_text {value : Value} (hnode : value.HasLegibleNode) :
    ∃ first rest, value.text.toList = first :: rest ∧ first ≠ ',' ∧ ¬ IsClosing first := by
  cases hword : value.isWord with
  | true =>
      obtain ⟨hne, hchars⟩ := word_text hword hnode
      obtain ⟨first, rest, htext⟩ := List.exists_cons_of_ne_nil hne
      have hfirst := hchars first (htext ▸ List.mem_cons_self)
      refine ⟨first, rest, htext, ?_, ?_⟩
      · rintro rfl
        exact absurd hfirst (by decide)
      · rintro (rfl | rfl) <;> exact absurd hfirst (by decide)
  | false =>
      obtain ⟨rest, htext⟩ := head_text_of_not_word hword hnode
      obtain ⟨hcomma, hclosing, -⟩ := value.opening_facts
      exact ⟨value.opening, rest, htext, hcomma, hclosing⟩

/-- No word opens as something else does. -/
theorem text_word_ne {value other : Value} (hvalue : value.isWord = true)
    (hother : other.isWord = false) (hnode : value.HasLegibleNode) (hseen : other.HasLegibleNode)
    (rest more : List Char) : value.text.toList ++ rest ≠ other.text.toList ++ more := by
  intro heq
  obtain ⟨hne, hchars⟩ := word_text hvalue hnode
  obtain ⟨first, tail, htext⟩ := List.exists_cons_of_ne_nil hne
  obtain ⟨inner, hopens⟩ := head_text_of_not_word hother hseen
  have hfirst := hchars first (htext ▸ List.mem_cons_self)
  rw [htext, hopens] at heq
  rw [(List.cons.inj heq).1, other.opening_facts.2.2] at hfirst
  cases hfirst

theorem endsWord_items {close : Char} (hclose : IsClosing close) (items : List Value)
    (rest : List Char) : EndsWord ((textOfItems ", " items).toList ++ close :: rest) := by
  intro c hc
  cases items with
  | nil =>
      obtain rfl : close = c := by simpa [textOfItems] using hc
      rcases hclose with rfl | rfl <;> decide
  | cons item others =>
      obtain rfl : ',' = c := by simpa [toList_textOfItems] using hc
      decide

/-- Items start with the comma before them or as the first of them does, never with
a bracket that closes. -/
theorem textOfItems_ne_closing {lead : String} {close : Char} (hlead : lead = "" ∨ lead = ", ")
    (hclose : IsClosing close) {item : Value} (hnode : item.HasLegibleNode) (items : List Value)
    (rest more : List Char) :
    (textOfItems lead (item :: items)).toList ++ rest ≠ close :: more := by
  intro heq
  rw [toList_textOfItems] at heq
  obtain ⟨first, tail, htext, -, hfirst⟩ := head_text hnode
  rcases hlead with rfl | rfl
  · rw [htext] at heq
    exact hfirst ((List.cons.inj heq).1 ▸ hclose)
  · rcases hclose with rfl | rfl <;> exact absurd (List.cons.inj heq).1 (by decide)

/-- The value can be told from its text, also where the text goes on. -/
def Told (value : Value) : Prop :=
  ∀ {other : Value}, other.Legible → ∀ {rest more : List Char}, EndsWord rest → EndsWord more →
    value.text.toList ++ rest = other.text.toList ++ more → value = other ∧ rest = more

/-- Items end at the bracket that closes them. -/
theorem textOfItems_unique {items others : List Value} {lead : String} {close : Char}
    {rest more : List Char} (hlead : lead = "" ∨ lead = ", ") (hclose : IsClosing close)
    (hitems : ∀ item ∈ items, item.HasLegibleNode ∧ item.Told)
    (hothers : ∀ other ∈ others, other.Legible)
    (h : (textOfItems lead items).toList ++ close :: rest =
      (textOfItems lead others).toList ++ close :: more) :
    items = others ∧ rest = more := by
  induction items generalizing others lead with
  | nil =>
      cases others with
      | nil => exact ⟨rfl, (List.cons.inj h).2⟩
      | cons other others =>
          have hother := (hothers other List.mem_cons_self).here
          exact absurd h.symm (textOfItems_ne_closing hlead hclose hother others _ _)
  | cons item items ih =>
      cases others with
      | nil =>
          have hitem := (hitems item List.mem_cons_self).1
          exact absurd h (textOfItems_ne_closing hlead hclose hitem items _ _)
      | cons other others =>
          rw [List.forall_mem_cons] at hitems hothers
          simp only [toList_textOfItems, List.append_assoc] at h
          obtain ⟨rfl, hrest⟩ := hitems.1.2 hothers.1 (endsWord_items hclose items rest)
            (endsWord_items hclose others more) (List.append_cancel_left h)
          obtain ⟨rfl, hmore⟩ := ih (.inr rfl) hitems.2 hothers.2 hrest
          exact ⟨rfl, hmore⟩

theorem told_word {value : Value} (hword : value.isWord = true) (hnode : value.HasLegibleNode) :
    value.Told := by
  intro other hother rest more hrest hmore h
  have hseen := hother.here
  cases hsecond : other.isWord with
  | true =>
      obtain ⟨-, hchars⟩ := word_text hword hnode
      obtain ⟨-, hothers⟩ := word_text hsecond hseen
      obtain ⟨hsame, hafter⟩ := Text.word_unique hchars hothers hrest hmore h
      exact ⟨word_injective hword hsecond hnode hseen (String.toList_inj.mp hsame), hafter⟩
  | false => exact absurd h (text_word_ne hword hsecond hnode hseen rest more)

/-- Values that open alike are of one kind. -/
theorem told_of_not_word {value : Value} (hword : value.isWord = false)
    (hnode : value.HasLegibleNode)
    (hparts : ∀ item ∈ value.parts, item.HasLegibleNode ∧ item.Told) : value.Told := by
  intro other hother rest more _ _ h
  have hseen := hother.here
  have hsecond : other.isWord = false := by
    rw [← Bool.not_eq_true]
    exact fun hsecond => text_word_ne hsecond hword hseen hnode more rest h.symm
  obtain ⟨inner, hopens⟩ := head_text_of_not_word hword hnode
  obtain ⟨seen, hopened⟩ := head_text_of_not_word hsecond hseen
  have hopening : value.opening = other.opening := by
    rw [hopens, hopened] at h
    exact (List.cons.inj h).1
  cases value with
  | str text =>
      cases other with
      | str seen =>
          have hquoted : (Text.quoted text).toList ++ rest = (Text.quoted seen).toList ++ more := h
          rw [Text.toList_quoted, Text.toList_quoted] at hquoted
          obtain ⟨hsame, hafter⟩ := Text.quoted_unique (by simpa using hquoted)
          exact ⟨congrArg Value.str (String.toList_inj.mp hsame), hafter⟩
      | list | set => simp [opening] at hopening
      | float => exact hseen.elim
      | _ => cases hsecond
  | list items =>
      cases other with
      | list others =>
          rw [toList_text_list, toList_text_list] at h
          obtain ⟨hsame, hafter⟩ := textOfItems_unique (.inl rfl) (.inl rfl) hparts
            (fun other hmem => hother.inside hmem) (by simpa [parts] using h)
          exact ⟨congrArg Value.list hsame, hafter⟩
      | str | set => simp [opening] at hopening
      | float => exact hseen.elim
      | _ => cases hsecond
  | set items =>
      cases other with
      | set others =>
          rw [toList_text_set, toList_text_set] at h
          obtain ⟨hsame, hafter⟩ := textOfItems_unique (.inl rfl) (.inr rfl) hparts
            (fun other hmem => hother.inside hmem) (by simpa [parts] using h)
          exact ⟨congrArg Value.set hsame, hafter⟩
      | str | list => simp [opening] at hopening
      | float => exact hseen.elim
      | _ => cases hsecond
  | float => exact hnode.elim
  | _ => cases hword

/-- By induction on the value: words end where no word goes on, everything else
where what it opened with is closed. -/
theorem Legible.told {value : Value} (h : value.Legible) : value.Told := by
  induction h with
  | @node value hnode hparts ih =>
      cases hword : value.isWord with
      | true => exact told_word hword hnode
      | false =>
          exact told_of_not_word hword hnode fun item hitem =>
            ⟨(hparts item hitem).here, ih item hitem⟩

/-- The text of a legible value says which value it is. -/
theorem text_injective {value other : Value} (hvalue : value.Legible) (hother : other.Legible)
    (h : value.text = other.text) : value = other := by
  have hnil : EndsWord [] := nofun
  exact (hvalue.told hother hnil hnil (by rw [h])).1

end Value

end SceneQuiz
