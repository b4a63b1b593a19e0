import SceneQuiz.Proofs.Machine.Restraint
import SceneQuiz.Proofs.Template.NodeProperty
import SceneQuiz.Template.Compiled
/-!
What the author of a template wrote, and what compilation puts around it.  The
code of a block has the author's expressions in it, names that the author
binds, and helper variables; all else is the same in every template.  So a
property of single nodes holds of all compiled code if it holds of what the
author wrote, in the template itself and in those that it inlines.
-/

namespace SceneQuiz

mutual

/-- The expressions of a block. -/
def Block.authored (block : Block) : List Expr :=
  match block with
  | .container items => Block.authoredOfAll items
  | .text _ | .index => []
  | .inject injection => [injection.expr]
  | .define pairs => pairs.map Prod.snd
  | .cond branches otherwise =>
      Block.authoredOfBranches branches ++
        (match otherwise with
          | some body => body.authored
          | none => [])
  | .foreach iterators body => iterators.map Prod.snd ++ body.authored
  | .indexing _ start body => start :: body.authored
  | .reveal _ value body => value :: body.authored
  | .lang _ body => body.authored
termination_by structural block

def Block.authoredOfAll (blocks : List Block) : List Expr :=
  match blocks with
  | [] => []
  | block :: rest => block.authored ++ Block.authoredOfAll rest
termination_by structural blocks

def Block.authoredOfBranches (branches : List (Expr × Block)) : List Expr :=
  match branches with
  | [] => []
  | (test, body) :: rest => test :: body.authored ++ Block.authoredOfBranches rest
termination_by structural branches

end

mutual

/-- The names that a block binds. -/
def Block.binders (block : Block) : List String :=
  match block with
  | .container items => Block.bindersOfAll items
  | .text _ | .index => []
  | .inject injection => injection.key.toList
  | .define pairs => pairs.map Prod.fst
  | .cond branches otherwise =>
      Block.bindersOfBranches branches ++
        (match otherwise with
          | some body => body.binders
          | none => [])
  | .foreach iterators body => iterators.map Prod.fst ++ body.binders
  | .indexing _ _ body | .reveal _ _ body | .lang _ body => body.binders
termination_by structural block

def Block.bindersOfAll (blocks : List Block) : List String :=
  match blocks with
  | [] => []
  | block :: rest => block.binders ++ Block.bindersOfAll rest
termination_by structural blocks

def Block.bindersOfBranches (branches : List (Expr × Block)) : List String :=
  match branches with
  | [] => []
  | (_, body) :: rest => body.binders ++ Block.bindersOfBranches rest
termination_by structural branches

end

mutual

/-- The values that injections of a block set `simp` to. -/
def Block.flags (block : Block) : List Bool :=
  match block with
  | .container items => Block.flagsOfAll items
  | .text _ | .index | .define _ => []
  | .inject injection => injection.simp.toList
  | .cond branches otherwise =>
      Block.flagsOfBranches branches ++
        (match otherwise with
          | some body => body.flags
          | none => [])
  | .foreach _ body | .indexing _ _ body | .reveal _ _ body | .lang _ body => body.flags
termination_by structural block

def Block.flagsOfAll (blocks : List Block) : List Bool :=
  match blocks with
  | [] => []
  | block :: rest => block.flags ++ Block.flagsOfAll rest
termination_by structural blocks

def Block.flagsOfBranches (branches : List (Expr × Block)) : List Bool :=
  match branches with
  | [] => []
  | (_, body) :: rest => body.flags ++ Block.flagsOfBranches rest
termination_by structural branches

end

namespace Block

theorem authoredOfAll_eq (blocks : List Block) :
    authoredOfAll blocks = blocks.flatMap authored := by
  induction blocks with
  | nil => rfl
  | cons block rest ih => simp only [authoredOfAll, ih, List.flatMap_cons]

theorem authoredOfBranches_eq (branches : List (Expr × Block)) :
    authoredOfBranches branches = branches.flatMap fun branch => branch.1 :: branch.2.authored := by
  induction branches with
  | nil => rfl
  | cons branch rest ih => simp only [authoredOfBranches, ih, List.flatMap_cons]

theorem bindersOfAll_eq (blocks : List Block) :
    bindersOfAll blocks = blocks.flatMap binders := by
  induction blocks with
  | nil => rfl
  | cons block rest ih => simp only [bindersOfAll, ih, List.flatMap_cons]

theorem bindersOfBranches_eq (branches : List (Expr × Block)) :
    bindersOfBranches branches = branches.flatMap fun branch => branch.2.binders := by
  induction branches with
  | nil => rfl
  | cons branch rest ih => simp only [bindersOfBranches, ih, List.flatMap_cons]

theorem binders_of_define {pairs : List (String × Expr)} {blocks : List Block}
    (hmem : .define pairs ∈ blocks) {pair : String × Expr} (hpair : pair ∈ pairs) :
    pair.1 ∈ bindersOfAll blocks := by
  rw [bindersOfAll_eq]
  exact List.mem_flatMap.mpr ⟨_, hmem, List.mem_map_of_mem hpair⟩

end Block

namespace Emit

/-- Where the members of the iterators come from. -/
def loopSources (n : Nat) (iterators : List (String × Expr)) : List Expr :=
  iterators.mapIdx fun i iterator => Expr.assign (loopList n (i + 1)) iterator.2

/-- The locals of a loop: its sources, its output, its index and its iterators. -/
def loopLocals (n : Nat) (iterators : List (String × Expr)) : List Expr :=
  loopSources n iterators ++ [.assign (loopOutput n) (.list []), .ident (loopIndex n)] ++
    iterators.map fun iterator => .ident iterator.1

/-- Sources that are sets become lists. -/
def loopListed (n count : Nat) : List Expr :=
  (List.range count).map fun i =>
    Expr.assign (loopList n (i + 1))
      (.ifThen (.call "setp" [.ident (loopList n (i + 1))])
        (.call "listify" [.ident (loopList n (i + 1))]) (some (.ident (loopList n (i + 1)))))

/-- The number of rounds. -/
def loopCount (n count : Nat) : Expr :=
  .call "min" ((List.range count).map fun i => .call "length" [.ident (loopList n (i + 1))])

/-- The iterators take their members of this round. -/
def loopMembers (n : Nat) (iterators : List (String × Expr)) : List Expr :=
  iterators.mapIdx fun i iterator =>
    Expr.assign iterator.1 (.index (.ident (loopList n (i + 1))) [.ident (loopIndex n)])

/-- What the body gives is collected. -/
def loopCollect (n : Nat) (body : Expr) : Expr :=
  .assign (loopOutput n) (.call "endcons" [body, .ident (loopOutput n)])

/-- One round. -/
def loopRound (n : Nat) (iterators : List (String × Expr)) (body : Expr) : Expr :=
  .group (loopMembers n iterators ++ [loopCollect n body])

/-- All rounds. -/
def loopRounds (n : Nat) (iterators : List (String × Expr)) (body : Expr) : Expr :=
  .forRange (loopIndex n) (.int 1) none (loopCount n iterators.length) (loopRound n iterators body)

/-- What was collected, as a text or to be rendered. -/
def loopResult (n : Nat) (isFlat : Bool) : Expr :=
  if isFlat then .call "simplode" [.ident (loopOutput n)]
  else .call "append" [.list [.str rootTag], .ident (loopOutput n)]

theorem loop_eq (n : Nat) (iterators : List (String × Expr)) (isFlat : Bool) (body : Expr) :
    loop n iterators isFlat body =
      .block (loopLocals n iterators) (loopListed n iterators.length ++
        [loopRounds n iterators body, loopResult n isFlat]) := rfl

/-- The functions that the code of blocks calls. -/
def called : List String :=
  ["append", "block", "endcons", "length", "listify", "min", "sconcat", "setp", "simplode",
    "stack_disp", "string"]

/-- A property that all code of blocks has if what the author wrote has it, tagged
lists aside.  Names with `N` may be bound, and `simp` may be set to what has
`F`; helper variables are those of the loops after the first `loops`. -/
structure Composes (loops : Nat) (N : String → Prop) (F : Bool → Prop) (Q : Expr → Prop) :
    Prop where
  literal : Q (.number "1") ∧ (∀ text, Q (.str text)) ∧ ∀ truth, Q (.bool truth)
  ident : ∀ {name}, N name → Q (.ident name)
  call : ∀ name ∈ called, name ≠ "block" → ∀ {args}, (∀ arg ∈ args, Q arg) → Q (.call name args)
  index : ∀ {target indices}, Q target → (∀ e ∈ indices, Q e) → Q (.index target indices)
  empty : Q (.list [])
  block : ∀ {locals body}, (∀ e ∈ locals.head?, e.isLocal = true) → (∀ e ∈ locals, Q e) →
    (∀ e ∈ body, Q e) → Q (.block locals body)
  group : ∀ {items}, (∀ item ∈ items, Q item) → Q (.group items)
  assign : ∀ {name}, N name → ∀ {value}, Q value → Q (.assign name value)
  cond : ∀ {branches otherwise}, (∀ branch ∈ branches, Q branch.1 ∧ Q branch.2) →
    (∀ body ∈ otherwise, Q body) → Q (.cond branches otherwise)
  forRange : ∀ {var}, N var → ∀ {first step last body}, Q first → (∀ width ∈ step, Q width) →
    Q last → Q body → Q (.forRange var first step last body)
  flagged : ∀ {flag}, F flag → ∀ {value}, Q value → Q (.flagged flag value)
  helper : ∀ n, loops < n → N (loopIndex n) ∧ N (loopOutput n) ∧ ∀ i, N (loopList n i)

/-- What an injection shows, without its flag. -/
def unflagged (injection : Injection) : Expr :=
  match injection.key with
  | some key => .group [injection.expr, shown injection (.ident key)]
  | none => shown injection injection.expr

theorem injection_eq (injection : Injection) : Emit.injection injection =
    match injection.simp with
    | none => unflagged injection
    | some flag => .flagged flag (unflagged injection) := rfl

namespace Composes

open SceneQuiz.Expr

variable {loops : Nat} {N : String → Prop} {F : Bool → Prop} {Q : Expr → Prop}

theorem later (hQ : Composes loops N F Q) {more : Nat} (h : loops ≤ more) :
    Composes more N F Q :=
  { hQ with helper := fun n hn => hQ.helper n (by omega) }

variable (hQ : Composes loops N F Q)

include hQ

theorem str (text : String) : Q (.str text) := hQ.literal.2.1 text

theorem localized {names : List String} (hnames : ∀ name ∈ names, N name)
    {body : Expr} (hbody : Q body) : Q (localized names body) := by
  unfold Emit.localized
  split
  · exact hbody
  · apply hQ.block (by cases names <;> simp [keepAll, keep, Expr.assign, isLocal])
    · exact List.forall_mem_map.mpr fun name hname =>
        hQ.assign (hnames name hname) (hQ.ident (hnames name hname))
    · simpa using hbody

theorem shown (injection : Injection) {e : Expr} (he : Q e) : Q (shown injection e) := by
  unfold Emit.shown
  split
  · apply hQ.call _ (by decide) (by decide)
    simpa [he] using hQ.str _
  · exact hQ.call _ (by decide) (by decide) (by simpa using he)

theorem injection {injection : Injection} (hexpr : Q injection.expr)
    (hkey : ∀ key ∈ injection.key, N key) (hflag : ∀ flag ∈ injection.simp, F flag) :
    Q (Emit.injection injection) := by
  have hvalue : Q (unflagged injection) := by
    unfold unflagged
    split
    · next key heq =>
        have hshown := hQ.shown injection (hQ.ident (hkey key heq))
        exact hQ.group (by simp [hexpr, hshown])
    · exact hQ.shown injection hexpr
  rw [injection_eq]
  split
  · exact hvalue
  · next flag heq => exact hQ.flagged (hflag flag heq) hvalue

theorem definitions {pairs : List (String × Expr)}
    (h : ∀ pair ∈ pairs, N pair.1 ∧ Q pair.2) : Q (definitions pairs) := by
  unfold Emit.definitions
  split
  · exact hQ.str ""
  · apply hQ.group
    simp only [List.forall_mem_append, List.forall_mem_map, List.forall_mem_cons]
    exact ⟨fun pair hpair => hQ.assign (h pair hpair).1 (h pair hpair).2, hQ.str "",
      List.forall_mem_nil _⟩

theorem conditional {branches : List (Expr × Expr)} {otherwise : Expr}
    (hbranches : ∀ branch ∈ branches, Q branch.1 ∧ Q branch.2)
    (hotherwise : Q otherwise) : Q (conditional branches otherwise) := by
  unfold Emit.conditional
  split
  · exact hotherwise
  · exact hQ.cond hbranches fun body hbody => Option.some.inj hbody ▸ hotherwise

theorem container {blocks : List Block} (hnames : ∀ name ∈ definedNames blocks, N name)
    {isFlat : Bool}
    (htagged : isFlat = false → ∀ tag {items}, (∀ e ∈ items, Q e) → Q (.list (.str tag :: items)))
    {parts : List Expr} (hparts : ∀ e ∈ parts, Q e) : Q (container blocks isFlat parts) := by
  apply hQ.localized hnames
  cases isFlat with
  | true => exact hQ.call _ (by decide) (by decide) hparts
  | false => exact htagged rfl _ hparts

theorem loopLocals {n : Nat} {iterators : List (String × Expr)}
    (hindex : N (loopIndex n)) (houtput : N (loopOutput n)) (hlist : ∀ i, N (loopList n i))
    (h : ∀ iterator ∈ iterators, N iterator.1 ∧ Q iterator.2) :
    ∀ e ∈ loopLocals n iterators, Q e := by
  simp only [Emit.loopLocals, List.forall_mem_append, List.forall_mem_map, List.forall_mem_cons]
  refine ⟨⟨?_, ?_, hQ.ident hindex, List.forall_mem_nil _⟩, ?_⟩
  · intro source hsource
    obtain ⟨i, hi, rfl⟩ := List.mem_mapIdx.mp hsource
    exact hQ.assign (hlist _) (h _ (List.getElem_mem hi)).2
  · exact hQ.assign houtput hQ.empty
  · exact fun iterator hmem => hQ.ident (h iterator hmem).1

theorem loopListed {n : Nat} (hlist : ∀ i, N (loopList n i)) (count : Nat) :
    ∀ e ∈ loopListed n count, Q e := by
  have hsource : ∀ i, Q (.ident (loopList n i)) := fun i => hQ.ident (hlist i)
  refine List.forall_mem_map.mpr fun i _ => ?_
  apply hQ.assign (hlist _)
  apply hQ.cond _ fun e he => Option.some.inj he ▸ hsource _
  simp only [List.forall_mem_cons]
  exact ⟨⟨hQ.call _ (by decide) (by decide) (by simpa using hsource _),
    hQ.call _ (by decide) (by decide) (by simpa using hsource _)⟩, List.forall_mem_nil _⟩

theorem loopCount {n : Nat} (hlist : ∀ i, N (loopList n i)) (count : Nat) :
    Q (loopCount n count) := by
  apply hQ.call _ (by decide) (by decide)
  refine List.forall_mem_map.mpr fun i _ => ?_
  exact hQ.call _ (by decide) (by decide) (by simpa using hQ.ident (hlist _))

theorem loopMembers {n : Nat} {iterators : List (String × Expr)}
    (hindex : N (loopIndex n)) (hlist : ∀ i, N (loopList n i))
    (h : ∀ iterator ∈ iterators, N iterator.1) : ∀ e ∈ loopMembers n iterators, Q e := by
  intro member hmember
  obtain ⟨i, hi, rfl⟩ := List.mem_mapIdx.mp hmember
  apply hQ.assign (h _ (List.getElem_mem hi))
  exact hQ.index (hQ.ident (hlist _)) (by simpa using hQ.ident hindex)

theorem loop {n : Nat} (hn : loops < n) {iterators : List (String × Expr)} {isFlat : Bool}
    (htagged : isFlat = false → ∀ tag {items}, (∀ e ∈ items, Q e) → Q (.list (.str tag :: items)))
    {body : Expr} (h : ∀ iterator ∈ iterators, N iterator.1 ∧ Q iterator.2) (hbody : Q body) :
    Q (loop n iterators isFlat body) := by
  obtain ⟨hindex, houtput, hlist⟩ := hQ.helper n hn
  have hoften := hQ.ident houtput
  rw [loop_eq]
  apply hQ.block
  · cases iterators <;> simp [Emit.loopLocals, loopSources, Expr.assign, isLocal]
  · exact hQ.loopLocals hindex houtput hlist h
  · rw [List.forall_mem_append, List.forall_mem_cons, List.forall_mem_singleton]
    refine ⟨hQ.loopListed hlist _, ?_, ?_⟩
    · refine hQ.forRange hindex hQ.literal.1 (by simp)
        (hQ.loopCount hlist _) (hQ.group ?_)
      rw [List.forall_mem_append, List.forall_mem_singleton]
      refine ⟨hQ.loopMembers hindex hlist fun iterator hmem => (h iterator hmem).1, ?_⟩
      apply hQ.assign houtput
      exact hQ.call _ (by decide) (by decide) (by simp [hbody, hoften])
    · cases isFlat with
      | true => exact hQ.call _ (by decide) (by decide) (by simpa using hoften)
      | false =>
          have htag : Q (.list [.str rootTag]) := htagged rfl _ (List.forall_mem_nil _)
          exact hQ.call _ (by decide) (by decide) (by simp [htag, hoften])

end Composes

/-- A property of single nodes that all code of blocks has, what the author
wrote and tagged lists aside.  Names with `N` may be bound; helper variables are
those of the loops after the first `loops`. -/
structure Admits (loops : Nat) (N : String → Prop) (P : Expr → Prop) : Prop where
  literal : P (.number "1") ∧ (∀ text, P (.str text)) ∧ ∀ truth, P (.bool truth)
  ident : ∀ {name}, N name → P (.ident name)
  call : ∀ name ∈ called, ∀ args, P (.call name args)
  index : ∀ target indices, P (.index target indices)
  locals : ∀ {items}, (∀ e ∈ items.head?, e.isLocal = true) → P (.list items)
  group : ∀ items, P (.group items)
  assign : ∀ left right, P (.binary .assign left right)
  cond : ∀ branches otherwise, P (.cond branches otherwise)
  forRange : ∀ {var}, N var → ∀ first step last body, P (.forRange var first step last body)
  saved : ∀ name ∈ ["%_s", "%_r", "simp"], N name
  helper : ∀ n, loops < n → N (loopIndex n) ∧ N (loopOutput n) ∧ ∀ i, N (loopList n i)

namespace Admits

open SceneQuiz.Expr

variable {loops : Nat} {N : String → Prop} {P : Expr → Prop} (hP : Admits loops N P)

include hP

theorem everywhere_ident {name : String} (hname : N name) : (Expr.ident name).Everywhere P :=
  .leaf (hP.ident hname) rfl

theorem everywhere_assign {name : String} (hname : N name) {value : Expr}
    (hvalue : value.Everywhere P) : (Expr.assign name value).Everywhere P :=
  .node (hP.assign _ value) ((forall_children_two rfl).mpr ⟨hP.everywhere_ident hname, hvalue⟩)

theorem everywhere_block {locals body : List Expr} (hhead : ∀ e ∈ locals.head?, e.isLocal = true)
    (hlocals : ∀ e ∈ locals, e.Everywhere P) (hbody : ∀ e ∈ body, e.Everywhere P) :
    (Expr.block locals body).Everywhere P :=
  .node (hP.call _ (by decide) _)
    (List.forall_mem_cons.mpr ⟨.node (hP.locals hhead) hlocals, hbody⟩)

theorem everywhere_flagged (flag : Bool) {value : Expr} (hvalue : value.Everywhere P) :
    (Expr.flagged flag value).Everywhere P := by
  obtain ⟨hsaved, hresult, hsimp, -⟩ :=
    (by simpa using hP.saved : N "%_s" ∧ N "%_r" ∧ N "simp" ∧ True)
  have hflag := hP.everywhere_assign hsimp (.leaf (hP.literal.2.2 flag) rfl)
  have hkeep := hP.everywhere_assign hsaved (hP.everywhere_ident hsimp)
  have hstore := hP.everywhere_assign hresult hvalue
  have hback := hP.everywhere_assign hsimp (hP.everywhere_ident hsaved)
  have hread := hP.everywhere_ident hresult
  apply hP.everywhere_block (by simp [Expr.assign, isLocal])
  · simp only [List.forall_mem_cons]
    exact ⟨hkeep, hread, List.forall_mem_nil _⟩
  · simp only [List.forall_mem_cons]
    exact ⟨hflag, hstore, hback, hread, List.forall_mem_nil _⟩

/-- What holds of the nodes holds of all code. -/
theorem composes : Composes loops N (fun _ => True) (Everywhere P) where
  literal := ⟨.leaf hP.literal.1 rfl, fun text => .leaf (hP.literal.2.1 text) rfl,
    fun truth => .leaf (hP.literal.2.2 truth) rfl⟩
  ident hname := hP.everywhere_ident hname
  call name hname _ args hargs := .node (hP.call name hname args) hargs
  index htarget hindices := .node (hP.index _ _) (forall_children_index.mpr ⟨htarget, hindices⟩)
  empty := .leaf (hP.locals nofun) rfl
  block hhead hlocals hbody := hP.everywhere_block hhead hlocals hbody
  group hitems := .node (hP.group _) hitems
  assign hname _ hvalue := hP.everywhere_assign hname hvalue
  cond hbranches hotherwise :=
    .node (hP.cond _ _) (forall_children_cond.mpr ⟨hbranches, hotherwise⟩)
  forRange hvar _ _ _ _ hfirst hstep hlast hbody := .node (hP.forRange hvar _ _ _ _)
    (forall_children_forRange.mpr ⟨hfirst, hstep, hlast, hbody⟩)
  flagged {flag} _ _ hvalue := hP.everywhere_flagged flag hvalue
  helper := hP.helper

/-- A list with a literal text in front. -/
theorem everywhere_tagged (htagged : ∀ tag items, P (.list (.str tag :: items))) (tag : String)
    {items : List Expr} (h : ∀ item ∈ items, item.Everywhere P) :
    (Expr.list (.str tag :: items)).Everywhere P :=
  .node (htagged tag items)
    (List.forall_mem_cons.mpr ⟨.leaf (hP.literal.2.1 tag) rfl, h⟩)

end Admits

theorem mem_foldl_once {names seen : List String} {name : String}
    (h : name ∈ names.foldl
      (fun names name => if name ∈ names then names else names ++ [name]) seen) :
    name ∈ seen ∨ name ∈ names := by
  induction names generalizing seen with
  | nil => exact .inl h
  | cons first rest ih =>
      rcases ih h with hseen | hrest
      · dsimp only at hseen
        split at hseen
        · exact .inl hseen
        · rw [List.mem_append, List.mem_singleton] at hseen
          refine hseen.imp_right fun hfirst => ?_
          rw [hfirst]
          exact List.mem_cons_self
      · exact .inr (List.mem_cons_of_mem first hrest)

theorem mem_definedNames {blocks : List Block} {name : String}
    (h : name ∈ definedNames blocks) :
    ∃ pairs, .define pairs ∈ blocks ∧ ∃ pair ∈ pairs, pair.1 = name := by
  unfold definedNames at h
  rcases mem_foldl_once h with hnil | hmem
  · cases hnil
  · obtain ⟨block, hblock, hname⟩ := List.mem_flatMap.mp hmem
    split at hname
    · next pairs => exact ⟨pairs, hblock, List.mem_map.mp hname⟩
    · cases hname

end Emit

section Code

variable {N : String → Prop} {F : Bool → Prop} {Q : Expr → Prop}

mutual

/-- All code of a block has a property if what the author wrote has it, by the
cases of the block.  There are tagged lists only in the code of blocks that are
not flat. -/
theorem Block.composes_codeAfter {loops : Nat} (hQ : Emit.Composes loops N F Q) (block : Block)
    (htagged : block.isFlat = false → ∀ tag {items}, (∀ e ∈ items, Q e) →
      Q (.list (.str tag :: items)))
    (hauthored : ∀ e ∈ block.authored, Q e) (hbinders : ∀ name ∈ block.binders, N name)
    (hflags : ∀ flag ∈ block.flags, F flag) : Q (block.codeAfter loops) :=
  match block with
  | .container items => by
      apply hQ.container
      · intro name hname
        obtain ⟨pairs, hdefine, pair, hpair, rfl⟩ := Emit.mem_definedNames hname
        exact hbinders _ (Block.binders_of_define hdefine hpair)
      · exact htagged
      · exact Block.composes_codeOfAll hQ items htagged hauthored hbinders hflags
  | .text content => hQ.str content
  | .inject injection =>
      hQ.injection (hauthored _ List.mem_cons_self)
        (fun key hkey => hbinders key (Option.mem_toList.mpr hkey))
        fun flag hflag => hflags flag (Option.mem_toList.mpr hflag)
  | .define pairs =>
      hQ.definitions fun pair hpair =>
        ⟨hbinders _ (List.mem_map_of_mem hpair), hauthored _ (List.mem_map_of_mem hpair)⟩
  | .cond branches otherwise => by
      unfold Block.authored at hauthored
      unfold Block.binders at hbinders
      unfold Block.flags at hflags
      rw [List.forall_mem_append] at hauthored hbinders hflags
      unfold Block.isFlat at htagged
      have hcode := Block.composes_codeOfBranches hQ branches
        (fun hflat => htagged (by rw [hflat, Bool.false_and])) hauthored.1 hbinders.1 hflags.1
      cases otherwise with
      | some body =>
          apply hQ.conditional hcode
          exact Block.composes_codeAfter (hQ.later (by omega)) body
            (fun hflat => htagged (by simp [hflat])) hauthored.2 hbinders.2 hflags.2
      | none => exact hQ.conditional hcode (hQ.str "")
  | .foreach iterators body => by
      rw [Block.authored, List.forall_mem_append] at hauthored
      rw [Block.binders, List.forall_mem_append] at hbinders
      apply hQ.loop (by omega) htagged
      · exact fun iterator hmem => ⟨hbinders.1 _ (List.mem_map_of_mem hmem),
          hauthored.1 _ (List.mem_map_of_mem hmem)⟩
      · exact Block.composes_codeAfter (hQ.later (by omega)) body htagged hauthored.2 hbinders.2
          hflags
  | .indexing style start body => by
      rw [Block.authored, List.forall_mem_cons] at hauthored
      have hbody := Block.composes_codeAfter hQ body (fun _ => htagged rfl) hauthored.2 hbinders
        hflags
      exact htagged rfl _ (by simp [hQ.str, hauthored.1, hbody])
  | .index => htagged rfl _ (List.forall_mem_nil _)
  | .reveal input value body => by
      rw [Block.authored, List.forall_mem_cons] at hauthored
      have hbody := Block.composes_codeAfter hQ body (fun _ => htagged rfl) hauthored.2 hbinders
        hflags
      exact htagged rfl _ (by simp [hQ.str, hauthored.1, hbody])
  | .lang codes body => by
      have hbody := Block.composes_codeAfter hQ body (fun _ => htagged rfl) hauthored hbinders
        hflags
      exact htagged rfl _ (by simp [hQ.str, hbody])
termination_by structural block

theorem Block.composes_codeOfAll {loops : Nat} (hQ : Emit.Composes loops N F Q)
    (blocks : List Block)
    (htagged : Block.allFlat blocks = false → ∀ tag {items}, (∀ e ∈ items, Q e) →
      Q (.list (.str tag :: items)))
    (hauthored : ∀ e ∈ Block.authoredOfAll blocks, Q e)
    (hbinders : ∀ name ∈ Block.bindersOfAll blocks, N name)
    (hflags : ∀ flag ∈ Block.flagsOfAll blocks, F flag) :
    ∀ e ∈ Block.codeOfAll loops blocks, Q e :=
  match blocks with
  | [] => List.forall_mem_nil _
  | block :: rest => by
      rw [Block.authoredOfAll, List.forall_mem_append] at hauthored
      rw [Block.bindersOfAll, List.forall_mem_append] at hbinders
      rw [Block.flagsOfAll, List.forall_mem_append] at hflags
      rw [Block.allFlat] at htagged
      have hfirst := Block.composes_codeAfter hQ block
        (fun hflat => htagged (by rw [hflat, Bool.false_and])) hauthored.1 hbinders.1 hflags.1
      exact List.forall_mem_cons.mpr ⟨hfirst, Block.composes_codeOfAll (hQ.later (by omega)) rest
        (fun hflat => htagged (by rw [hflat, Bool.and_false])) hauthored.2 hbinders.2 hflags.2⟩
termination_by structural blocks

theorem Block.composes_codeOfBranches {loops : Nat} (hQ : Emit.Composes loops N F Q)
    (branches : List (Expr × Block))
    (htagged : Block.allBodiesFlat branches = false → ∀ tag {items}, (∀ e ∈ items, Q e) →
      Q (.list (.str tag :: items)))
    (hauthored : ∀ e ∈ Block.authoredOfBranches branches, Q e)
    (hbinders : ∀ name ∈ Block.bindersOfBranches branches, N name)
    (hflags : ∀ flag ∈ Block.flagsOfBranches branches, F flag) :
    ∀ branch ∈ Block.codeOfBranches loops branches, Q branch.1 ∧ Q branch.2 :=
  match branches with
  | [] => List.forall_mem_nil _
  | (test, body) :: rest => by
      rw [Block.authoredOfBranches, List.cons_append, List.forall_mem_cons,
        List.forall_mem_append] at hauthored
      rw [Block.bindersOfBranches, List.forall_mem_append] at hbinders
      rw [Block.flagsOfBranches, List.forall_mem_append] at hflags
      rw [Block.allBodiesFlat] at htagged
      have hfirst := Block.composes_codeAfter hQ body
        (fun hflat => htagged (by rw [hflat, Bool.false_and])) hauthored.2.1 hbinders.1 hflags.1
      exact List.forall_mem_cons.mpr ⟨⟨hauthored.1, hfirst⟩,
        Block.composes_codeOfBranches (hQ.later (by omega)) rest
          (fun hflat => htagged (by rw [hflat, Bool.and_false])) hauthored.2.2 hbinders.2 hflags.2⟩
termination_by structural branches

end

/-- The code of a block has a property of single nodes if what the author wrote
has it. -/
theorem Block.everywhere_codeAfter {P : Expr → Prop} {loops : Nat} (hP : Emit.Admits loops N P)
    (block : Block)
    (htagged : block.isFlat = false → ∀ tag items, P (.list (.str tag :: items)))
    (hauthored : ∀ e ∈ block.authored, e.Everywhere P)
    (hbinders : ∀ name ∈ block.binders, N name) : (block.codeAfter loops).Everywhere P :=
  Block.composes_codeAfter hP.composes block
    (fun hflat => hP.everywhere_tagged (htagged hflat)) hauthored hbinders fun _ _ => trivial

end Code

/-- Code that is neither a name nor an inline template. -/
def Expr.isForm : Expr → Bool
  | .ident _ => false
  | .call name _ => name != "castext"
  | _ => true

theorem Emit.isForm_localized {names : List String} {body : Expr} (h : body.isForm = true) :
    (localized names body).isForm = true := by
  unfold localized
  split
  · exact h
  · rfl

theorem Emit.isForm_injection (injection : Injection) :
    (Emit.injection injection).isForm = true := by
  have hshown : ∀ e, (shown injection e).isForm = true := by
    intro e
    unfold shown
    split <;> rfl
  rw [injection_eq]
  split
  · unfold unflagged
    split
    · rfl
    · exact hshown _
  · rfl

theorem Block.isForm_codeAfter (loops : Nat) (block : Block) :
    (block.codeAfter loops).isForm = true :=
  match block with
  | .container items => by
      apply Emit.isForm_localized
      split <;> rfl
  | .text _ | .foreach _ _ | .indexing _ _ _ | .index | .reveal _ _ _ | .lang _ _ => rfl
  | .inject injection => Emit.isForm_injection injection
  | .define pairs => by
      unfold Block.codeAfter Emit.definitions
      split <;> rfl
  | .cond branches otherwise => by
      unfold Block.codeAfter Emit.conditional
      split
      · cases otherwise with
        | some body => exact Block.isForm_codeAfter _ body
        | none => rfl
      · rfl
termination_by structural block

/-- The texts of the inline templates in code. -/
def Expr.inlineSources (expand : String → Except TemplateIssue Expr) (e : Expr) :
    List String :=
  e.parts.filterMap fun part => match part with
    | .call name [arg] =>
        if name = "castext" then (arg.mergedForm expand).asString? else none
    | _ => none

theorem Expr.mem_inlineSources {expand : String → Except TemplateIssue Expr} {e arg : Expr}
    {source : String} (hcall : Expr.call "castext" [arg] ∈ e.parts)
    (hsource : arg.mergedForm expand = .str source) : source ∈ e.inlineSources expand :=
  List.mem_filterMap.mpr ⟨_, hcall, by simp [hsource, Expr.asString?]⟩

namespace TemplateContext

variable {ctx : TemplateContext} {template : Template}

/-- The block a template stands for. -/
def blockOf (ctx : TemplateContext) (template : Template) :
    Except (List TemplateFault) Block :=
  (template.root.annotate template.source ctx.options.mathEnvironments).toBlock ctx.inputs

theorem exists_of_compileWith {expand : String → Except TemplateIssue Expr}
    {compiled : CompiledTemplate} (h : ctx.compileWith expand template = .ok compiled) :
    ∃ block normal, ctx.blockOf template = .ok block ∧
      block.code.normalize expand ctx.options.foldLimit = .ok normal ∧
        compiled = ⟨localizeWrites normal, block.isFlat⟩ := by
  unfold compileWith skeleton at h
  cases hblock : ctx.blockOf template with
  | error faults =>
      unfold blockOf at hblock
      simp only [hblock, bind, Except.bind] at h
      cases h
  | ok block =>
      unfold blockOf at hblock
      simp only [hblock, bind, Except.bind, pure, Except.pure] at h
      cases hnormal : block.code.normalize expand ctx.options.foldLimit with
      | error faults =>
          rw [hnormal] at h
          cases h
      | ok normal =>
          rw [hnormal] at h
          cases h
          exact ⟨block, normal, rfl, hnormal, rfl⟩

/-- The template that a text stands for where it is inlined. -/
def inlineTemplate? (ctx : TemplateContext) (source : String) : Option Template :=
  match ctx.reader with
  | none => none
  | some reader =>
      match reader source with
      | .ok root => some ⟨source, root⟩
      | .error _ => none

theorem exists_of_expandWithin {levels : Nat} {source : String} {e : Expr}
    (h : ctx.expandWithin levels source = .ok e) :
    ∃ inner inline compiled, levels = inner + 1 ∧ ctx.inlineTemplate? source = some inline ∧
      ctx.compileWith (ctx.expandWithin inner) inline = .ok compiled ∧ e = compiled.expr := by
  unfold expandWithin at h
  unfold inlineTemplate?
  cases hreader : ctx.reader with
  | none =>
      rw [hreader] at h
      cases h
  | some reader =>
      rw [hreader] at h
      dsimp only at h ⊢
      split at h
      · cases h
      · next inner =>
          split at h
          · cases h
          · next root hroot =>
              rw [hroot]
              split at h
              · next compiled hcompiled =>
                  cases h
                  exact ⟨inner, _, compiled, rfl, rfl, hcompiled, rfl⟩
              · cases h

/-- The block of a template and the blocks of the templates that it inlines,
which may nest `levels` deep. -/
def blocksWithin (ctx : TemplateContext) : (levels : Nat) → Template → List Block
  | 0, template => (ctx.blockOf template).toOption.toList
  | levels + 1, template =>
      match ctx.blockOf template with
      | .error _ => []
      | .ok block =>
          block :: (block.code.inlineSources (ctx.expandWithin (levels + 1))).flatMap
            fun source => (ctx.inlineTemplate? source).toList.flatMap (ctx.blocksWithin levels)

theorem mem_blocksWithin {block : Block} (levels : Nat) (h : ctx.blockOf template = .ok block) :
    block ∈ ctx.blocksWithin levels template := by
  cases levels with
  | zero => simp [blocksWithin, h, Except.toOption]
  | succ levels => simp [blocksWithin, h]

theorem mem_blocksWithin_inline {block inner : Block} {levels : Nat} {arg : Expr}
    {source : String} {inline : Template} (h : ctx.blockOf template = .ok block)
    (hcall : Expr.call "castext" [arg] ∈ block.code.parts)
    (hsource : arg.mergedForm (ctx.expandWithin (levels + 1)) = .str source)
    (hinline : ctx.inlineTemplate? source = some inline)
    (hinner : inner ∈ ctx.blocksWithin levels inline) :
    inner ∈ ctx.blocksWithin (levels + 1) template := by
  have hmem := Expr.mem_inlineSources hcall hsource
  simp only [blocksWithin, h]
  apply List.mem_cons_of_mem
  apply List.mem_flatMap.mpr
  exact ⟨source, hmem, by simpa [hinline] using hinner⟩

theorem exists_blockOf {levels : Nat} {block : Block}
    (h : block ∈ ctx.blocksWithin levels template) :
    ∃ inline, ctx.blockOf inline = .ok block := by
  induction levels generalizing template with
  | zero =>
      refine ⟨template, ?_⟩
      cases hblock : ctx.blockOf template with
      | error => simp [blocksWithin, hblock, Except.toOption] at h
      | ok found => simpa [blocksWithin, hblock, Except.toOption, eq_comm] using h
  | succ levels ih =>
      unfold blocksWithin at h
      split at h
      · cases h
      · next found hfound =>
          rcases List.mem_cons.mp h with rfl | h
          · exact ⟨template, hfound⟩
          · obtain ⟨source, -, h⟩ := List.mem_flatMap.mp h
            obtain ⟨inline, -, h⟩ := List.mem_flatMap.mp h
            exact ih h

/-- A compiled template is no mere name. -/
theorem unnamed_of_compileWith {expand : String → Except TemplateIssue Expr}
    {compiled : CompiledTemplate} (h : ctx.compileWith expand template = .ok compiled)
    (name : String) : compiled.expr ≠ .ident name := by
  obtain ⟨block, normal, -, hnormal, rfl⟩ := exists_of_compileWith h
  obtain ⟨-, rfl⟩ := Expr.exists_of_normalize hnormal
  intro heq
  unfold localizeWrites Emit.localized at heq
  split at heq
  · have hform := Block.isForm_codeAfter 0 block
    have hinline : ∀ args, block.code ≠ .call "castext" args := by
      intro args hcall
      rw [← Block.code, hcall] at hform
      simp [Expr.isForm] at hform
    have hname := Expr.eq_ident_of_mergedForm (Expr.eq_ident_of_foldConcats heq) hinline
    rw [← Block.code, hname] at hform
    cases hform
  · cases heq

/-- A property goes from what the authors wrote to all compiled code, if normal
forms keep it and it may be made local, by induction on how deep inline
templates may still nest. -/
theorem exists_composed {N : String → Prop} {F : Bool → Prop} {Q : Expr → Prop}
    (hemit : Emit.Composes 0 N F Q)
    (htagged : ∀ tag {items}, (∀ e ∈ items, Q e) → Q (.list (.str tag :: items)))
    (hlasts : Expr.Lasts Q) (hlocal : ∀ {e : Expr}, Q e → Q (localizeWrites e))
    {levels : Nat} {compiled : CompiledTemplate}
    (h : ctx.compileWith (ctx.expandWithin levels) template = .ok compiled)
    (hauthored : ∀ block ∈ ctx.blocksWithin levels template, (∀ e ∈ block.authored, Q e) ∧
      (∀ name ∈ block.binders, N name) ∧ ∀ flag ∈ block.flags, F flag) :
    ∃ normal : Expr, Q normal ∧ compiled.expr = localizeWrites normal := by
  induction levels using Nat.strongRecOn generalizing template compiled with
  | ind levels ih =>
    obtain ⟨block, normal, hblock, hnormal, rfl⟩ := exists_of_compileWith h
    obtain ⟨-, rfl⟩ := Expr.exists_of_normalize hnormal
    obtain ⟨hown, hbinders, hflags⟩ := hauthored block (mem_blocksWithin levels hblock)
    have hcode : Q block.code :=
      Block.composes_codeAfter hemit block (fun _ => htagged) hown hbinders hflags
    have hmerged : Q (block.code.mergedForm (ctx.expandWithin levels)) := by
      apply hlasts.merged hcode
      intro arg inlined source hcall hsource hexpand
      obtain ⟨inner, inline, compiled, rfl, hinline, hcompiled, rfl⟩ :=
        exists_of_expandWithin hexpand
      obtain ⟨normal, hnormal, hexpr⟩ := ih inner (by omega) hcompiled fun block hinner =>
        hauthored block (mem_blocksWithin_inline hblock hcall hsource hinline hinner)
      rw [hexpr]
      refine ⟨hlocal hnormal, ?_⟩
      rw [← hexpr]
      exact unnamed_of_compileWith hcompiled
    exact ⟨_, hlasts.folded ctx.options.foldLimit hmerged, rfl⟩

section Everywhere

variable {N : String → Prop} {P : Expr → Prop} (hP : Expr.Labelled P)
  (hemit : Emit.Admits 0 N P)
  (hwrites : ∀ {e : Expr}, e.Everywhere P → ∀ name ∈ e.usage.write, N name)

include hemit hwrites

theorem everywhere_localizeWrites {e : Expr} (he : e.Everywhere P) :
    (localizeWrites e).Everywhere P := by
  apply hemit.composes.localized _ he
  exact fun name hname => hwrites he name (List.mem_filter.mp hname).1

include hP

/-- A property of single nodes goes from what the authors wrote to all compiled
code. -/
theorem exists_everywhere {levels : Nat} {compiled : CompiledTemplate}
    (h : ctx.compileWith (ctx.expandWithin levels) template = .ok compiled)
    (hauthored : ∀ block ∈ ctx.blocksWithin levels template,
      (∀ e ∈ block.authored, e.Everywhere P) ∧ ∀ name ∈ block.binders, N name) :
    ∃ normal : Expr, normal.Everywhere P ∧ compiled.expr = localizeWrites normal := by
  apply exists_composed hemit.composes _ hP.lasts _ h
  · intro block hblock
    exact ⟨(hauthored block hblock).1, (hauthored block hblock).2, fun _ _ => trivial⟩
  · exact hemit.everywhere_tagged fun tag items => hP.list _
  · exact fun he => everywhere_localizeWrites hemit hwrites he

end Everywhere

end TemplateContext

theorem Template.compileWith_of_compile {template : Template} {ctx : TemplateContext}
    {compiled : CompiledTemplate} (h : template.compile ctx = .ok compiled) :
    ctx.compileWith ctx.expand template = .ok compiled := by
  unfold Template.compile at h
  split at h
  · next hfound =>
      cases h
      exact hfound
  · cases h

end SceneQuiz
