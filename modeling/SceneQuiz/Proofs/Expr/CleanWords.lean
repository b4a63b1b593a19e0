import SceneQuiz.Expr.Usage
import SceneQuiz.Proofs.Parse.FragmentShape
import SceneQuiz.Question.Structure
/-!
The words of code: numerals and names, which are printed as they stand.  A word
is clean if it holds no character that a text could be cut at.  All words of code
that was read are clean, and so are the names that such code writes.
-/

namespace SceneQuiz

/-- Characters that a text with words in it is cut at. -/
def cutsText (c : Char) : Bool := c == '"' || c == ',' || c == '\x00'

/-- A text that keeps together wherever it stands. -/
def Uncut (text : String) : Prop := ∀ c ∈ text.toList, cutsText c = false

instance (text : String) : Decidable (Uncut text) :=
  List.decidableBAll (fun c => cutsText c = false) text.toList

theorem Uncut.append {text other : String} (htext : Uncut text) (hother : Uncut other) :
    Uncut (text ++ other) := by
  unfold Uncut
  rw [String.toList_append]
  exact List.forall_mem_append.mpr ⟨htext, hother⟩

/-- A word that keeps together wherever it stands. -/
structure CleanWord (word : String) : Prop where
  nonempty : word ≠ ""
  uncut : Uncut word

namespace CleanWord

theorem iff {word : String} : CleanWord word ↔ word ≠ "" ∧ Uncut word :=
  ⟨fun h => ⟨h.nonempty, h.uncut⟩, fun h => ⟨h.1, h.2⟩⟩

instance (word : String) : Decidable (CleanWord word) := decidable_of_iff _ iff.symm

theorem of_cons {word : String} {c : Char} {rest : List Char}
    (hword : word.toList = c :: rest) (huncut : ∀ d ∈ c :: rest, cutsText d = false) :
    CleanWord word := by
  refine ⟨?_, ?_⟩
  · rintro rfl
    cases hword
  · unfold Uncut
    rwa [hword]

theorem append {word other : String} (hword : CleanWord word) (hother : Uncut other) :
    CleanWord (word ++ other) :=
  ⟨fun h => hword.nonempty (String.append_eq_empty_iff.mp h).1, hword.uncut.append hother⟩

end CleanWord

theorem cutsText_of_continuesName {c : Char} (hc : continuesName c = true) :
    cutsText c = false := by
  rw [Bool.eq_false_iff]
  intro hcut
  simp only [cutsText, Bool.or_eq_true, beq_iff_eq] at hcut
  rcases hcut with (rfl | rfl) | rfl <;> exact absurd hc (by decide)

theorem cutsText_of_isDigit {c : Char} (hc : c.isDigit = true) : cutsText c = false :=
  cutsText_of_continuesName (by simp [continuesName, hc])

theorem cleanWord_of_isName {name : String} (h : isName name = true) : CleanWord name := by
  obtain ⟨⟨first, rest, hname, hfirst, hrest⟩, -⟩ := isName_iff.mp h
  refine .of_cons hname (List.forall_mem_cons.mpr ⟨?_, fun c hc => ?_⟩)
  · exact cutsText_of_continuesName (by simp [continuesName, hfirst])
  · exact cutsText_of_continuesName (hrest c hc)

theorem cleanWord_of_isIdentifier {name : String} (h : isIdentifier name = true) :
    CleanWord name := by
  have hcontinues : ∀ c : Char, (c.isAlphanum || c == '_') = true →
      continuesName c = true := by
    intro c hc
    simp only [continuesName, startsName, Char.isAlphanum, Bool.or_eq_true] at hc ⊢
    rcases hc with (halpha | hdigit) | hunderscore
    · exact .inl (.inl (.inl halpha))
    · exact .inr hdigit
    · exact .inl (.inl (.inr hunderscore))
  unfold isIdentifier at h
  split at h
  · cases h
  · next first rest hname =>
      simp only [Bool.and_eq_true, List.all_eq_true] at h
      refine .of_cons hname (List.forall_mem_cons.mpr ⟨?_, fun c hc => ?_⟩)
      · exact cutsText_of_continuesName (hcontinues first (by simp [Char.isAlphanum, h.1]))
      · exact cutsText_of_continuesName (hcontinues c (h.2 c hc))

namespace Lexer

theorem uncut_fraction {cs : List Char} (h : IsFraction cs) :
    ∀ c ∈ cs, cutsText c = false := by
  rcases h with rfl | ⟨d, ds, rfl, hdigits⟩
  · simp
  · exact List.forall_mem_cons.mpr
      ⟨by decide, fun c hc => cutsText_of_isDigit (hdigits c hc)⟩

theorem uncut_exponent {cs : List Char} (h : IsExponent cs) :
    ∀ c ∈ cs, cutsText c = false := by
  rcases h with rfl | ⟨mark, sign, d, ds, rfl, hmark, hsign, hdigits⟩
  · simp
  · refine List.forall_mem_cons.mpr ⟨?_, List.forall_mem_append.mpr ⟨?_, ?_⟩⟩
    · rcases hmark with rfl | rfl <;> decide
    · rcases hsign with rfl | rfl | rfl <;> simp [cutsText]
    · exact fun c hc => cutsText_of_isDigit (hdigits c hc)

end Lexer

theorem cleanWord_of_isNumeral {text : String} (h : isNumeral text = true) :
    CleanWord text := by
  unfold isNumeral at h
  split at h
  · cases h
  · next first rest htext =>
      rw [Bool.and_eq_true, beq_iff_eq] at h
      obtain ⟨fraction, exponent, hparts, -, hrest⟩ := Lexer.spanNumber_parts first rest
      rw [h.2, List.append_nil] at hrest
      refine .of_cons htext (List.forall_mem_cons.mpr ⟨?_, ?_⟩)
      · have hstart := h.1
        simp only [Lexer.startsNumber, Bool.or_eq_true, Bool.and_eq_true,
          beq_iff_eq] at hstart
        rcases hstart with hdigit | ⟨rfl, -⟩
        · exact cutsText_of_isDigit hdigit
        · decide
      · rw [← hrest, List.forall_mem_append, List.forall_mem_append]
        exact ⟨⟨fun c hc => cutsText_of_isDigit (hparts.isDigits c hc),
          Lexer.uncut_fraction hparts.isFraction⟩, Lexer.uncut_exponent hparts.isExponent⟩

theorem uncut_toString (n : Nat) : Uncut (toString n) := by
  intro c hc
  have hdigits : c ∈ Nat.toDigits 10 n := by
    rwa [show (toString n).toList = Nat.toDigits 10 n from Nat.toList_repr] at hc
  exact cutsText_of_isDigit (Nat.isDigit_of_mem_toDigits (by omega) (by omega) hdigits)

theorem cleanWord_toString (n : Nat) : CleanWord (toString n) := by
  refine ⟨fun h => ?_, uncut_toString n⟩
  have htext : (toString n).toList = Nat.toDigits 10 n := Nat.toList_repr
  rw [h] at htext
  exact Nat.toDigits_ne_nil htext.symm

namespace Expr

/-- What a node is printed with as it stands. -/
def words : Expr → List String
  | .number word | .ident word | .call word _ | .forIn word _ _
  | .forRange word _ _ _ _ => [word]
  | _ => []

/-- An expression whose words are clean. -/
def Clean (e : Expr) : Prop :=
  e.Everywhere fun node => ∀ word ∈ node.words, CleanWord word

theorem clean_iff {e : Expr} :
    e.Clean ↔ (∀ word ∈ e.words, CleanWord word) ∧ ∀ part ∈ e.children, part.Clean :=
  everywhere_iff

theorem clean_of_spelled {e : Expr} (h : e.Everywhere Spelled) : e.Clean := by
  refine h.mono fun node hnode word hword => ?_
  cases node with
  | number text =>
      rw [List.mem_singleton.mp hword]
      exact cleanWord_of_isNumeral hnode
  | ident | call | forIn | forRange =>
      rw [List.mem_singleton.mp hword]
      exact cleanWord_of_isName hnode
  | _ => cases hword

theorem clean_of_parse {source : String} {e : Expr} (h : Expr.parse source = .ok e) :
    e.Clean :=
  clean_of_spelled (spelled_of_parse h)

section Constructs

variable {name word : String} {items args : List Expr} {e left right : Expr}

@[simp] theorem clean_number : (number word).Clean ↔ CleanWord word := by
  rw [clean_iff]
  simp [words, children]

@[simp] theorem clean_str (text : String) : (str text).Clean := by
  rw [clean_iff]
  simp [words, children]

@[simp] theorem clean_bool (value : Bool) : (bool value).Clean := by
  rw [clean_iff]
  simp [words, children]

@[simp] theorem clean_ident : (ident name).Clean ↔ CleanWord name := by
  rw [clean_iff]
  simp [words, children]

@[simp] theorem clean_call :
    (call name args).Clean ↔ CleanWord name ∧ ∀ arg ∈ args, arg.Clean := by
  rw [clean_iff]
  simp [words, children]

@[simp] theorem clean_index :
    (index e items).Clean ↔ e.Clean ∧ ∀ item ∈ items, item.Clean := by
  rw [clean_iff]
  simp [words, children]

@[simp] theorem clean_list : (list items).Clean ↔ ∀ item ∈ items, item.Clean := by
  rw [clean_iff]
  simp [words, children]

@[simp] theorem clean_group : (group items).Clean ↔ ∀ item ∈ items, item.Clean := by
  rw [clean_iff]
  simp [words, children]

@[simp] theorem clean_neg : (neg e).Clean ↔ e.Clean := by
  rw [clean_iff]
  simp [words, children]

@[simp] theorem clean_not : (not e).Clean ↔ e.Clean := by
  rw [clean_iff]
  simp [words, children]

@[simp] theorem clean_binary {op : BinOp} :
    (binary op left right).Clean ↔ left.Clean ∧ right.Clean := by
  rw [clean_iff]
  simp [words, children]

@[simp] theorem clean_cond {branches : List (Expr × Expr)} {otherwise : Option Expr} :
    (cond branches otherwise).Clean ↔
      (∀ branch ∈ branches, branch.1.Clean ∧ branch.2.Clean) ∧
        ∀ body ∈ otherwise, body.Clean := by
  rw [clean_iff, forall_children_cond]
  simp [words]

@[simp] theorem clean_assign : (assign name e).Clean ↔ CleanWord name ∧ e.Clean := by
  simp [assign]

@[simp] theorem clean_ifThen {test body : Expr} {otherwise : Option Expr} :
    (ifThen test body otherwise).Clean ↔
      (test.Clean ∧ body.Clean) ∧ ∀ e ∈ otherwise, e.Clean := by
  simp [ifThen]

@[simp] theorem clean_block {locals body : List Expr} :
    (block locals body).Clean ↔
      (∀ item ∈ locals, item.Clean) ∧ ∀ item ∈ body, item.Clean := by
  have hblock : CleanWord "block" := by decide
  simp [block, hblock]

@[simp] theorem clean_keep : (keep name).Clean ↔ CleanWord name := by
  simp [keep]

@[simp] theorem clean_defineFunction :
    (defineFunction name e).Clean ↔ CleanWord name ∧ e.Clean := by
  simp [defineFunction]

@[simp] theorem clean_int (n : Int) : (int n).Clean := by
  have hliteral := cleanWord_toString n.natAbs
  unfold int
  dsimp only
  split <;> simpa using hliteral

theorem clean_getD {found : Option Expr} (hfound : ∀ e ∈ found, e.Clean) (he : e.Clean) :
    (found.getD e).Clean := by
  cases found with
  | none => exact he
  | some e => exact hfound e rfl

end Constructs

end Expr

/-- Statements whose words are clean. -/
def Fragment.Clean (fragment : Fragment) : Prop :=
  ∀ statement ∈ fragment, statement.expr.Clean ∧
    ∀ flag ∈ statement.flags, ∀ value ∈ flag.value, value.Clean

theorem Fragment.clean_of_parse {source : String} {fragment : Fragment}
    (h : Fragment.parse source = .ok fragment) : Fragment.Clean fragment := by
  intro statement hstatement
  have hspelled := Fragment.spelled_of_parse h statement hstatement
  exact ⟨Expr.clean_of_spelled hspelled.expr, fun flag hflag value hvalue =>
    Expr.clean_of_spelled (hspelled.values flag hflag value hvalue)⟩

/-- A set of clean words. -/
def NameSet.Clean (names : NameSet) : Prop := ∀ name ∈ names, CleanWord name

namespace NameSet.Clean

theorem empty : NameSet.Clean ∅ := fun name hname => absurd hname (not_mem_empty name)

theorem union {left right : NameSet} (hleft : left.Clean) (hright : right.Clean) :
    (left ∪ right).Clean :=
  fun name hname => (mem_union.mp hname).elim (hleft name) (hright name)

theorem filter {names : NameSet} (h : names.Clean) (keep : String → Bool) :
    (names.filter keep).Clean :=
  fun name hname => h name (mem_filter.mp hname).1

end NameSet.Clean

/-- Code that writes clean words only. -/
def Usage.WritesClean (usage : Usage) : Prop := usage.write.Clean

namespace Usage.WritesClean

theorem empty : Usage.empty.WritesClean := NameSet.Clean.empty

theorem union {left right : Usage} (hleft : left.WritesClean)
    (hright : right.WritesClean) : (left ∪ right).WritesClean :=
  NameSet.Clean.union hleft hright

theorem ofRead (bound : List String) (name : String) :
    (Usage.ofRead bound name).WritesClean := by
  unfold Usage.ofRead
  split <;> exact NameSet.Clean.empty

theorem ofCall (bound : List String) (name : String) :
    (Usage.ofCall bound name).WritesClean := by
  unfold Usage.ofCall
  split <;> exact NameSet.Clean.empty

theorem ofBinder (name : String) : (Usage.ofBinder name).WritesClean := by
  unfold Usage.ofBinder
  split <;> exact NameSet.Clean.empty

theorem ofWrite (bound : List String) {name : String} (hname : CleanWord name) :
    (Usage.ofWrite bound name).WritesClean := by
  unfold Usage.ofWrite
  split
  · exact NameSet.Clean.empty
  · intro other hother
    rw [List.mem_singleton.mp hother]
    exact hname

end Usage.WritesClean

namespace Expr

/-- Whatever stands around an expression, it writes clean words. -/
def WritesClean (e : Expr) : Prop := ∀ role bound, (e.usageAs role bound).WritesClean

theorem writesClean_all {items : List Expr} (h : ∀ item ∈ items, item.WritesClean)
    (role : Role) (bound : List String) : (usageOfAll items role bound).WritesClean := by
  induction items with
  | nil => exact .empty
  | cons item rest ih =>
      rw [List.forall_mem_cons] at h
      exact (h.1 role bound).union (ih h.2)

theorem writesClean_branches {branches : List (Expr × Expr)}
    (h : ∀ branch ∈ branches, branch.1.WritesClean ∧ branch.2.WritesClean)
    (bound : List String) : (usageOfBranches branches bound).WritesClean := by
  induction branches with
  | nil => exact .empty
  | cons branch rest ih =>
      rw [List.forall_mem_cons] at h
      exact ((h.1.1 _ bound).union (h.1.2 _ bound)).union (ih h.2)

/-- An initial value stands two steps inside the list of declarations. -/
theorem writesClean_declarations {items : List Expr}
    (h : ∀ item ∈ items, item.Everywhere WritesClean) (bound : List String) :
    (usageOfDeclarations items bound).WritesClean := by
  induction items with
  | nil => exact .empty
  | cons item rest ih =>
      rw [List.forall_mem_cons] at h
      unfold usageOfDeclarations
      split
      · cases ‹_ :: _ = []›
      · next left right others heq =>
          obtain ⟨rfl, rfl⟩ := List.cons.inj heq
          exact ((h.1.inside (by simp [children])).here _ bound).union (ih h.2)
      · next others _ heq =>
          obtain ⟨rfl, rfl⟩ := List.cons.inj heq
          exact ih h.2

theorem writesClean_call {name : String} {args : List Expr}
    (h : ∀ arg ∈ args, arg.Everywhere WritesClean) : (call name args).WritesClean := by
  intro role bound
  have hargs : ∀ items : List Expr, (∀ item ∈ items, item ∈ args) → ∀ bound,
      (usageOfAll items .value bound).WritesClean := fun items hitems bound =>
    writesClean_all (fun item hitem => (h item (hitems item hitem)).here) .value bound
  unfold usageAs
  split
  · split
    · exact .ofCall bound name
    · next declarations body =>
        refine (Usage.WritesClean.union ?_ (.ofBinder name)).union
          (hargs body (fun _ hitem => List.mem_cons_of_mem _ hitem) _)
        exact writesClean_declarations (fun item hitem =>
          (h (.list declarations) List.mem_cons_self).inside hitem) bound
    · exact (Usage.WritesClean.ofBinder name).union (hargs _ (fun _ hitem => hitem) bound)
  · exact (Usage.WritesClean.ofCall bound name).union (hargs args (fun _ hitem => hitem) bound)

theorem writesClean_define {left right : Expr} (hclean : left.Clean)
    (hleft : left.WritesClean) (hright : right.WritesClean) :
    (binary .define left right).WritesClean := by
  intro role bound
  unfold usageAs
  dsimp only
  split
  · next name params =>
      exact (Usage.WritesClean.ofWrite bound (clean_call.mp hclean).1).union
        (hright _ _)
  · exact (hleft _ bound).union (hright _ bound)

theorem writesClean_everywhere {e : Expr} (he : e.Clean) : e.Everywhere WritesClean := by
  induction e using Expr.ofParts with
  | hstep e ih =>
    have hparts : ∀ part ∈ e.children, part.Everywhere WritesClean := fun part hpart =>
      ih part hpart (he.inside hpart)
    have hhere : ∀ part ∈ e.children, part.WritesClean := fun part hpart =>
      (hparts part hpart).here
    refine .node ?_ hparts
    cases e with
    | call name args => exact writesClean_call hparts
    | number | str | bool | quote => exact fun _ _ => .empty
    | ident name =>
        intro role bound
        cases role with
        | value => exact .ofRead bound name
        | target => exact .ofWrite bound (clean_ident.mp he)
    | index target indices =>
        rw [forall_children_index] at hhere
        exact fun role bound => (writesClean_all hhere.2 .value bound).union (hhere.1 _ bound)
    | list items => exact fun role bound => writesClean_all hhere role bound
    | set items | group items => exact fun _ bound => writesClean_all hhere .value bound
    | neg operand | not operand | factorial operand =>
        exact fun _ bound => hhere operand List.mem_cons_self .value bound
    | binary op left right =>
        rw [forall_children_two rfl] at hhere
        cases op with
        | define => exact writesClean_define (clean_binary.mp he).1 hhere.1 hhere.2
        | assign =>
            exact fun _ bound => (hhere.2 .value bound).union (hhere.1 .target bound)
        | _ => exact fun _ bound => (hhere.1 .value bound).union (hhere.2 .value bound)
    | cond branches otherwise =>
        rw [forall_children_cond] at hhere
        intro role bound
        have hbranches := writesClean_branches hhere.1 bound
        cases otherwise with
        | some body => exact hbranches.union (hhere.2 body rfl .value bound)
        | none => exact hbranches.union .empty
    | forIn var source body =>
        rw [forall_children_two rfl] at hhere
        exact fun _ bound => (hhere.1 .value bound).union (hhere.2 .value (var :: bound))
    | forRange var first step last body =>
        rw [forall_children_forRange] at hhere
        obtain ⟨hfirst, hstep, hlast, hbody⟩ := hhere
        intro role bound
        have hinside := hbody .value (var :: bound)
        cases step with
        | some width =>
            exact (((hfirst .value bound).union (hstep width rfl .value bound)).union
              (hlast .value bound)).union hinside
        | none =>
            exact (((hfirst .value bound).union .empty).union (hlast .value bound)).union
              hinside

theorem writesClean {e : Expr} (he : e.Clean) : e.usage.WritesClean :=
  (writesClean_everywhere he).here .value []

end Expr

theorem Statement.writesClean {statement : Statement} (hexpr : statement.expr.Clean)
    (hvalues : ∀ flag ∈ statement.flags, ∀ value ∈ flag.value, value.Clean) :
    statement.usage.WritesClean := by
  unfold Statement.usage
  have hstart := Expr.writesClean hexpr
  generalize statement.expr.usage = start at hstart ⊢
  generalize statement.flags = flags at hvalues
  induction flags generalizing start with
  | nil => exact hstart
  | cons flag rest ih =>
      rw [List.forall_mem_cons] at hvalues
      refine ih _ ?_ hvalues.2
      dsimp only
      split
      · next value hvalue => exact hstart.union (Expr.writesClean (hvalues.1 value hvalue))
      · exact hstart

theorem Fragment.writesClean {fragment : Fragment} (h : Fragment.Clean fragment) :
    (Fragment.usage fragment).WritesClean := by
  unfold Fragment.usage
  have hstart := Usage.WritesClean.empty
  generalize Usage.empty = start at hstart ⊢
  induction fragment generalizing start with
  | nil => exact hstart
  | cons statement rest ih =>
      have hstatement := h statement List.mem_cons_self
      exact ih (fun other hother => h other (List.mem_cons_of_mem _ hother)) _
        (hstart.union (Statement.writesClean hstatement.1 hstatement.2))

end SceneQuiz
