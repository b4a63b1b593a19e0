import SceneQuiz.Expr.Printer
import SceneQuiz.Proofs.Expr.CleanWords
/-!
Where printed code ends.  Scanned from its start, printed code has zero
characters inside string literals only, and every literal in it is closed.  So a
zero character that follows it is the first one outside a literal, and it can be
told from what comes after.
-/

namespace SceneQuiz

/-- Where a scan of code stands. -/
inductive ScanMode where
  | code
  /-- Inside a string literal. -/
  | literal
  /-- After a backslash inside a string literal. -/
  | escape
deriving DecidableEq

namespace ScanMode

/-- One character further.  There is no way past a zero character outside a
literal. -/
def next : ScanMode → Char → Option ScanMode
  | .code, c =>
      if c = '"' then some .literal else if c = '\x00' then none else some .code
  | .literal, c =>
      if c = '"' then some .code else if c = '\\' then some .escape else some .literal
  | .escape, _ => some .literal

def scan (mode : ScanMode) (cs : List Char) : Option ScanMode := cs.foldlM next mode

theorem scan_append (mode : ScanMode) (cs ds : List Char) :
    scan mode (cs ++ ds) = (scan mode cs).bind fun after => scan after ds :=
  List.foldlM_append

end ScanMode

/-- A text that ends outside a literal, with zero characters inside literals
only. -/
def Sealed (text : String) : Prop := ScanMode.scan .code text.toList = some .code

instance (text : String) : Decidable (Sealed text) :=
  inferInstanceAs (Decidable (ScanMode.scan .code text.toList = some .code))

namespace Sealed

theorem append {text other : String} (htext : Sealed text) (hother : Sealed other) :
    Sealed (text ++ other) := by
  rw [Sealed, String.toList_append, ScanMode.scan_append, htext]
  exact hother

theorem of_uncut {text : String} (h : Uncut text) : Sealed text := by
  unfold Sealed
  unfold Uncut at h
  generalize text.toList = cs at h
  induction cs with
  | nil => rfl
  | cons c rest ih =>
      rw [List.forall_mem_cons] at h
      have hnext : ScanMode.next .code c = some .code := by
        have hc := h.1
        simp only [cutsText, Bool.or_eq_false_iff, beq_eq_false_iff_ne] at hc
        simp [ScanMode.next, hc]
      rw [ScanMode.scan, List.foldlM_cons, hnext]
      exact ih h.2

theorem of_cleanWord {word : String} (h : CleanWord word) : Sealed word :=
  .of_uncut h.uncut

end Sealed

/-- What follows a text that is told from it. -/
def Apart (rest : List Char) : Prop := ∀ c ∈ rest.head?, c = '\x00'

theorem apart_cons (rest : List Char) : Apart ('\x00' :: rest) :=
  fun _ hc => (Option.some.inj hc).symm

/-- Sealed texts are told from what follows them: if one went on where the other
ends, it would meet a zero character. -/
theorem Sealed.append_inj {text other : String} {rest more : List Char}
    (htext : Sealed text) (hother : Sealed other) (hrest : Apart rest) (hmore : Apart more)
    (h : text.toList ++ rest = other.toList ++ more) : text = other ∧ rest = more := by
  have hstop : ∀ {first second between next : List Char},
      ScanMode.scan .code first = some .code → ScanMode.scan .code second = some .code →
      second = first ++ between → Apart (between ++ next) → between = [] := by
    intro first second between next hfirst hsecond heq hapart
    cases between with
    | nil => rfl
    | cons c between =>
        obtain rfl : c = '\x00' := hapart c rfl
        rw [heq, ScanMode.scan_append, hfirst] at hsecond
        cases hsecond
  rcases List.append_eq_append_iff.mp h with ⟨between, heq, hbetween⟩ |
    ⟨between, heq, hbetween⟩
  · rw [hbetween] at hrest
    obtain rfl := hstop htext hother heq hrest
    exact ⟨(String.toList_inj.mp (by simpa using heq)).symm, by simpa using hbetween⟩
  · rw [hbetween] at hmore
    obtain rfl := hstop hother htext heq hmore
    exact ⟨String.toList_inj.mp (by simpa using heq), by simpa using hbetween.symm⟩

namespace Expr

/-- Inside a literal, an escaped character leads back into the literal. -/
theorem scan_escaped (cs : List Char) :
    ScanMode.scan .literal (Lexer.escaped cs) = some .literal := by
  induction cs with
  | nil => rfl
  | cons c rest ih =>
      rw [Lexer.escaped, List.flatMap_cons, ScanMode.scan_append]
      have hescaped : ScanMode.scan .literal (if c = '"' then ['\\', '"'] else
          if c = '\\' then ['\\', '\\'] else [c]) = some .literal := by
        split
        · decide
        · split
          · decide
          · next hquote hslash =>
              simp [ScanMode.scan, ScanMode.next, hquote, hslash]
      rw [hescaped]
      exact ih

theorem sealed_stringLiteral (text : String) : Sealed (stringLiteral text) := by
  have hopen : ScanMode.scan .code ['"'] = some .literal := by decide
  have hclose : ScanMode.scan .literal ['"'] = some .code := by decide
  rw [Sealed, Lexer.toList_stringLiteral, ← List.singleton_append, ScanMode.scan_append,
    hopen, Option.bind_some, ScanMode.scan_append, scan_escaped, Option.bind_some, hclose]

theorem sealed_parenthesized {text : String} (h : Sealed text) :
    Sealed (parenthesized text) :=
  (Sealed.append (by decide) h).append (by decide)

theorem sealed_wrap (e : Expr) (least : Nat) {text : String} (h : Sealed text) :
    Sealed (e.wrap least text) := by
  unfold wrap
  split
  · exact sealed_parenthesized h
  · exact h

/-- An operand that follows an operator or a sign. -/
theorem sealed_wrapAfter (e : Expr) (least : Nat) {text : String} (h : Sealed text) :
    Sealed (if e.isNegation then parenthesized text else e.wrap least text) := by
  split
  · exact sealed_parenthesized h
  · exact sealed_wrap e least h

theorem sealed_spaced (op : BinOp) : Sealed op.spaced := by
  cases op <;> decide

theorem sealed_printTail {items : List Expr} (h : ∀ e ∈ items, Sealed e.printBare) :
    Sealed (printTail items) := by
  induction items with
  | nil => exact (by decide : Sealed "")
  | cons e rest ih =>
      rw [List.forall_mem_cons] at h
      exact (Sealed.append (by decide) h.1).append (ih h.2)

theorem sealed_printItems {items : List Expr} (h : ∀ e ∈ items, Sealed e.printBare) :
    Sealed (printItems items) := by
  cases items with
  | nil => exact (by decide : Sealed "")
  | cons e rest =>
      rw [List.forall_mem_cons] at h
      exact h.1.append (sealed_printTail h.2)

theorem sealed_printBranches {lead : String} (hlead : Sealed lead)
    {branches : List (Expr × Expr)}
    (h : ∀ branch ∈ branches, Sealed branch.1.printBare ∧ Sealed branch.2.printBare) :
    Sealed (printBranches lead branches) := by
  induction branches generalizing lead with
  | nil => exact (by decide : Sealed "")
  | cons branch rest ih =>
      rw [List.forall_mem_cons] at h
      exact (((hlead.append (sealed_wrap _ _ h.1.1)).append (by decide)).append
        (sealed_wrap _ _ h.1.2)).append (ih (by decide) h.2)

theorem sealed_forRange {var : String} {first last body : Expr} {step : Option Expr}
    (hvar : Sealed var) (hfirst : Sealed first.printBare)
    (hstep : ∀ e ∈ step, Sealed e.printBare) (hlast : Sealed last.printBare)
    (hbody : Sealed body.printBare) :
    Sealed (forRange var first step last body).printBare := by
  have hfor : Sealed "for " := by decide
  have hcolon : Sealed ":" := by decide
  have hthru : Sealed " thru " := by decide
  have hdo : Sealed " do " := by decide
  have hhead := ((hfor.append hvar).append hcolon).append
    (sealed_wrap first (Binding.control + 1) hfirst)
  have hlimit := sealed_wrap last (Binding.control + 1) hlast
  cases step with
  | some width =>
      have hword : Sealed " step " := by decide
      have hwidth := sealed_wrap width (Binding.control + 1) (hstep width rfl)
      exact ((((hhead.append (hword.append hwidth)).append hthru).append hlimit).append
        hdo).append hbody
  | none =>
      have hnone : Sealed "" := by decide
      exact ((((hhead.append hnone).append hthru).append hlimit).append hdo).append hbody

theorem sealed_printBare {e : Expr} (he : e.Clean) : Sealed e.printBare := by
  induction e using Expr.ofParts with
  | hstep e ih =>
    have hparts : ∀ part ∈ e.children, Sealed part.printBare := fun part hpart =>
      ih part hpart (he.inside hpart)
    have hwords : ∀ word ∈ e.words, Sealed word := fun word hword =>
      .of_cleanWord (he.here word hword)
    cases e with
    | number text | ident text => exact hwords text List.mem_cons_self
    | str text => exact sealed_stringLiteral text
    | bool value => cases value <;> decide
    | call name args =>
        exact (((hwords name List.mem_cons_self).append (by decide)).append
          (sealed_printItems hparts)).append (by decide)
    | index target indices =>
        rw [forall_children_index] at hparts
        exact (((sealed_wrap _ _ hparts.1).append (by decide)).append
          (sealed_printItems hparts.2)).append (by decide)
    | list items | set items | group items =>
        exact (Sealed.append (by decide) (sealed_printItems hparts)).append (by decide)
    | neg operand =>
        exact Sealed.append (by decide)
          (sealed_wrapAfter operand _ (hparts operand List.mem_cons_self))
    | not operand | quote operand =>
        exact Sealed.append (by decide)
          (sealed_wrap operand _ (hparts operand List.mem_cons_self))
    | factorial operand =>
        exact (sealed_wrap operand _ (hparts operand List.mem_cons_self)).append (by decide)
    | binary op left right =>
        rw [forall_children_two rfl] at hparts
        exact ((sealed_wrap left _ hparts.1).append (sealed_spaced op)).append
          (sealed_wrapAfter right _ hparts.2)
    | cond branches otherwise =>
        rw [forall_children_cond] at hparts
        have hbranches := sealed_printBranches (by decide : Sealed "if ") hparts.1
        cases otherwise with
        | some body =>
            exact hbranches.append (Sealed.append (by decide) (hparts.2 body rfl))
        | none => exact hbranches.append (by decide)
    | forIn var source body =>
        rw [forall_children_two rfl] at hparts
        exact (((((by decide : Sealed "for ").append (hwords var List.mem_cons_self)).append
          (by decide)).append (sealed_wrap source _ hparts.1)).append (by decide)).append
            hparts.2
    | forRange var first step last body =>
        rw [forall_children_forRange] at hparts
        exact sealed_forRange (hwords var List.mem_cons_self) hparts.1 hparts.2.1
          hparts.2.2.1 hparts.2.2.2

/-- Printed code is told from what follows it. -/
theorem sealed_print {e : Expr} (he : e.Clean) : Sealed e.print :=
  sealed_wrap e 0 (sealed_printBare he)

end Expr

end SceneQuiz
