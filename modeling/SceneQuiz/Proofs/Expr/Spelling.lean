import SceneQuiz.Proofs.Parse.Reader
/-!
The lexemes of an expression as it stands, with no parentheses but those of
its groups, and the expression that reading them gives back.  A group of one
item is a pair of parentheses: reading drops it.
-/

namespace SceneQuiz

namespace Expr

theorem sizeOf_lt_of_mem_children {e part : Expr} (hpart : part ∈ e.children) :
    sizeOf part < sizeOf e := by
  cases e with
  | number | str | bool | ident => simp [children] at hpart
  | call name items =>
      have hsize : sizeOf part < sizeOf items := List.sizeOf_lt_of_mem hpart
      simp only [call.sizeOf_spec]
      omega
  | list items | set items | group items =>
      have hsize : sizeOf part < sizeOf items := List.sizeOf_lt_of_mem hpart
      simp only [list.sizeOf_spec, set.sizeOf_spec, group.sizeOf_spec]
      omega
  | index target items =>
      simp only [children, List.mem_cons] at hpart
      simp only [index.sizeOf_spec]
      rcases hpart with rfl | hpart
      · omega
      · have hsize := List.sizeOf_lt_of_mem hpart
        omega
  | neg operand | not operand | quote operand | factorial operand =>
      simp only [children, List.mem_singleton] at hpart
      subst hpart
      simp
  | binary op left right =>
      simp only [children, List.mem_cons, List.not_mem_nil, or_false] at hpart
      simp only [binary.sizeOf_spec]
      rcases hpart with rfl | rfl <;> omega
  | cond branches otherwise =>
      simp only [children, List.mem_append, List.mem_flatMap, List.mem_cons,
        List.not_mem_nil, or_false, Option.mem_toList] at hpart
      simp only [cond.sizeOf_spec]
      rcases hpart with ⟨⟨test, body⟩, hbranch, hpart⟩ | hpart
      · have hsize := List.sizeOf_lt_of_mem hbranch
        simp only [Prod.mk.sizeOf_spec] at hsize
        rcases hpart with rfl | rfl <;> omega
      · subst hpart
        simp
        omega
  | forIn var source body =>
      simp only [children, List.mem_cons, List.not_mem_nil, or_false] at hpart
      simp only [forIn.sizeOf_spec]
      rcases hpart with rfl | rfl <;> omega
  | forRange var first step last body =>
      simp only [children, List.mem_append, List.mem_cons, List.not_mem_nil,
        or_false, Option.mem_toList] at hpart
      simp only [forRange.sizeOf_spec]
      rcases hpart with (rfl | hpart) | rfl | rfl
      · omega
      · subst hpart
        simp
        omega
      · omega
      · omega

section Parts

variable {P : Expr → Prop}

theorem forall_children_cond {branches : List (Expr × Expr)}
    {otherwise : Option Expr} :
    (∀ part ∈ (cond branches otherwise).children, P part) ↔
      (∀ branch ∈ branches, P branch.1 ∧ P branch.2) ∧
        ∀ body ∈ otherwise, P body := by
  simp only [children, List.mem_append, List.mem_flatMap, List.mem_cons,
    List.not_mem_nil, or_false, Option.mem_toList, Option.mem_def]
  constructor
  · intro hparts
    refine ⟨fun branch hbranch => ⟨?_, ?_⟩, fun body hbody => ?_⟩
    · exact hparts _ (.inl ⟨branch, hbranch, .inl rfl⟩)
    · exact hparts _ (.inl ⟨branch, hbranch, .inr rfl⟩)
    · exact hparts body (.inr hbody)
  · rintro ⟨hbranches, hotherwise⟩ part (⟨branch, hbranch, rfl | rfl⟩ | hpart)
    · exact (hbranches branch hbranch).1
    · exact (hbranches branch hbranch).2
    · exact hotherwise part hpart

theorem forall_children_forRange {var : String} {first : Expr}
    {step : Option Expr} {last body : Expr} :
    (∀ part ∈ (forRange var first step last body).children, P part) ↔
      P first ∧ (∀ e ∈ step, P e) ∧ P last ∧ P body := by
  simp only [children, List.mem_append, List.mem_cons, List.not_mem_nil,
    or_false, Option.mem_toList, Option.mem_def]
  constructor
  · intro hparts
    exact ⟨hparts first (.inl (.inl rfl)), fun e he => hparts e (.inl (.inr he)),
      hparts last (.inr (.inl rfl)), hparts body (.inr (.inr rfl))⟩
  · rintro ⟨hfirst, hstep, hlast, hbody⟩ part ((rfl | hpart) | rfl | rfl)
    · exact hfirst
    · exact hstep part hpart
    · exact hlast
    · exact hbody

theorem forall_children_index {target : Expr} {indices : List Expr} :
    (∀ part ∈ (index target indices).children, P part) ↔
      P target ∧ ∀ part ∈ indices, P part :=
  List.forall_mem_cons

theorem forall_children_two {e one two : Expr} (he : e.children = [one, two]) :
    (∀ part ∈ e.children, P part) ↔ P one ∧ P two := by
  simp [he]

theorem forall_children_one {e one : Expr} (he : e.children = [one]) :
    (∀ part ∈ e.children, P part) ↔ P one := by
  simp [he]

end Parts

/-- What holds of an expression once it holds of its parts holds of every
expression. -/
theorem ofParts {P : Expr → Prop}
    (hstep : ∀ e : Expr, (∀ part ∈ e.children, P part) → P e) (e : Expr) : P e :=
  hstep e fun part hpart =>
    have := sizeOf_lt_of_mem_children hpart
    ofParts hstep part
termination_by sizeOf e

/-- A property of single nodes that every node of an expression has. -/
inductive Everywhere (P : Expr → Prop) : Expr → Prop where
  | node {e : Expr} : P e → (∀ part ∈ e.children, Everywhere P part) →
      Everywhere P e

namespace Everywhere

variable {P : Expr → Prop} {e : Expr}

theorem leaf (hnode : P e) (hchildren : e.children = []) : Everywhere P e :=
  .node hnode (by simp [hchildren])

theorem here (h : Everywhere P e) : P e := by
  cases h with
  | node hnode _ => exact hnode

theorem inside (h : Everywhere P e) {part : Expr} (hpart : part ∈ e.children) :
    Everywhere P part := by
  cases h with
  | node _ hparts => exact hparts part hpart

theorem of_forall (h : ∀ e, P e) (e : Expr) : Everywhere P e :=
  ofParts (fun e hparts => .node (h e) hparts) e

theorem mono {Q : Expr → Prop} (himp : ∀ e, P e → Q e) (h : Everywhere P e) :
    Everywhere Q e := by
  induction h with
  | node hnode _ ih => exact .node (himp _ hnode) ih

end Everywhere

theorem everywhere_iff {P : Expr → Prop} {e : Expr} :
    Everywhere P e ↔ P e ∧ ∀ part ∈ e.children, Everywhere P part :=
  ⟨fun h => ⟨h.here, fun _ hpart => h.inside hpart⟩, fun h => .node h.1 h.2⟩

end Expr

/-- The lexeme of an operator. -/
def BinOp.lexeme : BinOp → Lexeme
  | .assign => .colon
  | .define => .colonEqual
  | .or => .word .orWord
  | .and => .word .andWord
  | .eq => .equal
  | .notEq => .hash
  | .less => .less
  | .greater => .greater
  | .lessEq => .lessEqual
  | .greaterEq => .greaterEqual
  | .add => .plus
  | .sub => .minus
  | .mul => .star
  | .div => .slash
  | .dot => .dot
  | .pow => .caret

mutual

/-- The lexemes of an expression. -/
@[simp] def Expr.spell (e : Expr) : List Lexeme :=
  match e with
  | .number text => [.number text]
  | .str text => [.str text]
  | .bool true => [.word .trueWord]
  | .bool false => [.word .falseWord]
  | .ident name => [.ident name]
  | .call name args =>
      .ident name :: .leftParen :: (Expr.spellItems args ++ [.rightParen])
  | .index target indices =>
      target.spell ++ .leftBracket :: (Expr.spellItems indices ++ [.rightBracket])
  | .list items => .leftBracket :: (Expr.spellItems items ++ [.rightBracket])
  | .set items => .leftBrace :: (Expr.spellItems items ++ [.rightBrace])
  | .group items => .leftParen :: (Expr.spellItems items ++ [.rightParen])
  | .neg operand => .minus :: operand.spell
  | .not operand => .word .notWord :: operand.spell
  | .quote operand => .quote :: operand.spell
  | .factorial operand => operand.spell ++ [.bang]
  | .binary op left right => left.spell ++ op.lexeme :: right.spell
  | .cond branches otherwise =>
      Expr.spellBranches (.word .ifWord) branches ++
        (match otherwise with
          | some body => .word .elseWord :: body.spell
          | none => [])
  | .forIn var source body =>
      .word .forWord :: .ident var :: .word .inWord :: (source.spell ++
        .word .doWord :: body.spell)
  | .forRange var first step last body =>
      .word .forWord :: .ident var :: .colon :: (first.spell ++
        ((match step with
          | some step => .word .stepWord :: step.spell
          | none => []) ++
        .word .thruWord :: (last.spell ++ .word .doWord :: body.spell)))
termination_by structural e

/-- The lexemes of expressions between commas. -/
@[simp] def Expr.spellItems (items : List Expr) : List Lexeme :=
  match items with
  | [] => []
  | e :: rest => e.spell ++ Expr.spellTail rest
termination_by structural items

/-- The lexemes of expressions with a comma before each. -/
@[simp] def Expr.spellTail (items : List Expr) : List Lexeme :=
  match items with
  | [] => []
  | e :: rest => .comma :: (e.spell ++ Expr.spellTail rest)
termination_by structural items

/-- The lexemes of branches, the first one after `lead`. -/
@[simp] def Expr.spellBranches (lead : Lexeme) (branches : List (Expr × Expr)) :
    List Lexeme :=
  match branches with
  | [] => []
  | (test, body) :: rest =>
      lead :: (test.spell ++ .word .thenWord :: (body.spell ++
        Expr.spellBranches (.word .elseifWord) rest))
termination_by structural branches

end

namespace Parse

/-- How tight a level is. -/
def Level.rank : Level → Nat
  | .expression => 1
  | .assignment => 2
  | .disjunction => 3
  | .conjunction => 4
  | .negation => 5
  | .comparison => 6
  | .sum => 7
  | .product => 8
  | .sign => 9
  | .power => 10
  | .quotation => 11
  | .suffix => 12
  | .operand => 13

/-- What is read one expression deeper, unless that is too deep. -/
def deeper {α : Type} (nesting : Nat) (k : Nat → Option α) : Option α :=
  if nestingLimit ≤ nesting then none else k (nesting + 1)

end Parse

/-- The level that reads an operator. -/
def BinOp.level : BinOp → Parse.Level
  | .assign | .define => .assignment
  | .or => .disjunction
  | .and => .conjunction
  | .eq | .notEq | .less | .greater | .lessEq | .greaterEq => .comparison
  | .add | .sub => .sum
  | .mul | .div | .dot => .product
  | .pow => .power

namespace Expr

/-- The level that reads an expression as it stands. -/
def level : Expr → Parse.Level
  | .binary op _ _ => op.level
  | .not _ => .negation
  | .neg _ => .sign
  | .quote _ => .quotation
  | .call _ _ | .index _ _ | .factorial _ => .suffix
  | _ => .operand

/-- Conditionals and loops reach as far to the right as they can. -/
def isControl : Expr → Bool
  | .cond _ _ | .forIn _ _ _ | .forRange _ _ _ _ _ => true
  | _ => false

/-- What the head of a loop gives: it ends before an assignment. -/
def asHeader (e : Expr) (found : Option Expr) : Option Expr :=
  if e.level = .assignment then none else found

end Expr

mutual

/-- What reading the lexemes of an expression gives, inside `nesting`
others. -/
@[simp] def Expr.reading (nesting : Nat) (e : Expr) : Option Expr :=
  match e with
  | .number text => some (.number text)
  | .str text => some (.str text)
  | .bool value => some (.bool value)
  | .ident name => some (.ident name)
  | .call name args => do
      let args ← Expr.readingItems nesting args
      some (.call name args)
  | .index target indices => do
      let target ← target.reading nesting
      let indices ← Expr.readingItems nesting indices
      some (.index target indices)
  | .list items => do
      let items ← Expr.readingItems nesting items
      some (.list items)
  | .set items => do
      let items ← Expr.readingItems nesting items
      some (.set items)
  | .group items => do
      let items ← Expr.readingItems nesting items
      some (Parse.regroup items)
  | .neg operand => do
      let operand ← operand.reading nesting
      some (.neg operand)
  | .not operand => do
      let operand ← operand.reading nesting
      some (.not operand)
  | .quote operand => do
      let operand ← operand.reading nesting
      some (.quote operand)
  | .factorial operand => do
      let operand ← operand.reading nesting
      some (.factorial operand)
  | .binary op left right => do
      let left ← left.reading nesting
      let right ← right.reading nesting
      some (.binary op left right)
  | .cond branches otherwise => do
      let branches ← Expr.readingBranches nesting branches
      match otherwise with
      | some body =>
          let body ← Parse.deeper nesting fun nesting => body.reading nesting
          some (.cond branches (some body))
      | none => some (.cond branches none)
  | .forIn var source body => do
      let source ← source.asHeader (source.reading nesting)
      let body ← Parse.deeper nesting fun nesting => body.reading nesting
      some (.forIn var source body)
  | .forRange var first step last body => do
      let first ← first.asHeader (first.reading nesting)
      let step ← match step with
        | some step => (step.asHeader (step.reading nesting)).map some
        | none => some none
      let last ← last.asHeader (last.reading nesting)
      let body ← Parse.deeper nesting fun nesting => body.reading nesting
      some (.forRange var first step last body)
termination_by structural e

@[simp] def Expr.readingItems (nesting : Nat) (items : List Expr) :
    Option (List Expr) :=
  match items with
  | [] => some []
  | e :: rest => do
      let e ← Parse.deeper nesting fun nesting => e.reading nesting
      let rest ← Expr.readingItems nesting rest
      some (e :: rest)
termination_by structural items

@[simp] def Expr.readingBranches (nesting : Nat) (branches : List (Expr × Expr)) :
    Option (List (Expr × Expr)) :=
  match branches with
  | [] => some []
  | (test, body) :: rest => do
      let test ← Parse.deeper nesting fun nesting => test.reading nesting
      let body ← Parse.deeper nesting fun nesting => body.reading nesting
      let rest ← Expr.readingBranches nesting rest
      some ((test, body) :: rest)
termination_by structural branches

end

end SceneQuiz
