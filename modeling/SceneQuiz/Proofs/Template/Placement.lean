import SceneQuiz.Proofs.Parse.FailureReport
import SceneQuiz.Template.MathMode
import SceneQuiz.Template.Reading
/-!
Where the markers of a template stand.  A template that is read without a fault
has markers exactly if it holds a block known by name, and its `index` blocks
all stand inside `indexing` blocks.
-/

namespace SceneQuiz

mutual

/-- Is there a block known by name in a node? -/
def Node.hasNamed (node : Node) : Bool :=
  match node with
  | .root _ children | .foreach _ _ children => Node.anyNamed children
  | .cond _ branches => Node.anyBranchNamed branches
  | .named _ _ _ _ => true
  | .raw _ _ | .inject _ _ _ | .define _ _ | .comment _ _ | .escape _ _ => false
termination_by structural node

def Node.anyNamed (nodes : List Node) : Bool :=
  match nodes with
  | [] => false
  | node :: rest => node.hasNamed || Node.anyNamed rest
termination_by structural nodes

def Node.anyBranchNamed (branches : List (Branch Node)) : Bool :=
  match branches with
  | [] => false
  | ⟨_, children, _⟩ :: rest => Node.anyNamed children || Node.anyBranchNamed rest
termination_by structural branches

end

mutual

/-- Marking a node changes none of its blocks. -/
theorem Node.hasNamed_mark (map : List Bool) (node : Node) :
    (node.mark map).hasNamed = node.hasNamed :=
  match node with
  | .root _ children | .foreach _ _ children => Node.anyNamed_markAll map children
  | .cond _ branches => Node.anyBranchNamed_markBranches map branches
  | .named _ _ _ _ => rfl
  | .raw _ _ | .inject _ _ _ | .define _ _ | .comment _ _ | .escape _ _ => rfl
termination_by structural node

theorem Node.anyNamed_markAll (map : List Bool) (nodes : List Node) :
    Node.anyNamed (Node.markAll map nodes) = Node.anyNamed nodes :=
  match nodes with
  | [] => rfl
  | node :: rest => by
      rw [Node.markAll, Node.anyNamed, Node.anyNamed, Node.hasNamed_mark map node,
        Node.anyNamed_markAll map rest]
termination_by structural nodes

theorem Node.anyBranchNamed_markBranches (map : List Bool) (branches : List (Branch Node)) :
    Node.anyBranchNamed (Node.markBranches map branches) = Node.anyBranchNamed branches :=
  match branches with
  | [] => rfl
  | ⟨_, children, _⟩ :: rest => by
      rw [Node.markBranches, Node.anyBranchNamed, Node.anyBranchNamed,
        Node.anyNamed_markAll map children, Node.anyBranchNamed_markBranches map rest]
termination_by structural branches

end

mutual

/-- Does every `index` stand inside an `indexing`, if the block itself does so
or not? -/
def Block.isPlaced (inside : Bool) (block : Block) : Bool :=
  match block with
  | .container items => Block.allPlaced inside items
  | .text _ | .inject _ | .define _ => true
  | .cond branches otherwise =>
      Block.allBodiesPlaced inside branches &&
        (match otherwise with
          | some body => body.isPlaced inside
          | none => true)
  | .foreach _ body | .reveal _ _ body | .lang _ body => body.isPlaced inside
  | .indexing _ _ body => body.isPlaced true
  | .index => inside
termination_by structural block

def Block.allPlaced (inside : Bool) (blocks : List Block) : Bool :=
  match blocks with
  | [] => true
  | block :: rest => block.isPlaced inside && Block.allPlaced inside rest
termination_by structural blocks

def Block.allBodiesPlaced (inside : Bool) (branches : List (Expr × Block)) : Bool :=
  match branches with
  | [] => true
  | (_, body) :: rest => body.isPlaced inside && Block.allBodiesPlaced inside rest
termination_by structural branches

end

namespace Block

theorem allFlat_eq (blocks : List Block) : allFlat blocks = blocks.all isFlat := by
  induction blocks with
  | nil => rfl
  | cons block rest ih => simp only [allFlat, ih, List.all_cons]

theorem allPlaced_eq (inside : Bool) (blocks : List Block) :
    allPlaced inside blocks = blocks.all (isPlaced inside) := by
  induction blocks with
  | nil => rfl
  | cons block rest ih => simp only [allPlaced, ih, List.all_cons]

/-- What is read from a node: markers if there is a block known by name, and
every `index` in its place. -/
structure Stands (named inside : Bool) (block : Block) : Prop where
  flat : block.isFlat = !named
  placed : block.isPlaced inside = true

/-- What several nodes are read to stands as the container of it does. -/
theorem stands_cons {named others inside : Bool} {block : Block} {rest : List Block}
    (h : block.Stands named inside) (hrest : (container rest).Stands others inside) :
    (container (block :: rest)).Stands (named || others) inside := by
  obtain ⟨hflat, hplaced⟩ := h
  obtain ⟨hothers, hplaces⟩ := hrest
  simp only [isFlat, isPlaced] at hothers hplaces
  exact ⟨by simp [isFlat, allFlat, hflat, hothers],
    by simp [isPlaced, allPlaced, hplaced, hplaces]⟩

theorem stands_branch {named others inside : Bool} {test : Expr} {body : Block}
    {branches : List (Expr × Block)} {otherwise : Option Block} (h : body.Stands named inside)
    (hrest : (cond branches otherwise).Stands others inside) :
    (cond ((test, body) :: branches) otherwise).Stands (named || others) inside := by
  obtain ⟨hflat, hplaced⟩ := h
  obtain ⟨hothers, hplaces⟩ := hrest
  unfold isFlat at hothers
  unfold isPlaced at hplaces
  constructor
  · unfold isFlat
    rw [allBodiesFlat, Bool.and_assoc, hothers, hflat, Bool.not_or]
  · unfold isPlaced
    rw [allBodiesPlaced, Bool.and_assoc, hplaces, hplaced, Bool.and_true]

theorem stands_otherwise {named inside : Bool} {body : Block} (h : body.Stands named inside) :
    (cond [] (some body)).Stands named inside :=
  ⟨h.flat, h.placed⟩

end Block

namespace Checked

variable {α β : Type} {good : α → Prop} {fine : β → Prop}

/-- A result that has a property unless a fault was reported. -/
structure Ensures (good : α → Prop) (checked : Checked α) : Prop where
  holds : checked.faults = [] → good checked.value

theorem Ensures.any (checked : Checked α) : Ensures (fun _ => True) checked :=
  ⟨fun _ => trivial⟩

theorem Ensures.value {value : α} (h : good value) : Ensures good (pure value) :=
  ⟨fun _ => h⟩

theorem Ensures.bind {first : Checked α} {next : α → Checked β} (hfirst : Ensures good first)
    (hnext : ∀ value, good value → Ensures fine (next value)) : Ensures fine (first >>= next) := by
  constructor
  intro hfaults
  obtain ⟨hbefore, hafter⟩ := List.append_eq_nil_iff.mp hfaults
  exact (hnext first.value (hfirst.holds hbefore)).holds hafter

/-- Nothing more needs to be said once a fault is reported. -/
theorem Ensures.reported {issue : TemplateIssue} {position : Option Position}
    {next : Unit → Checked β} : Ensures fine (report issue position >>= next) :=
  ⟨nofun⟩

end Checked

namespace Reading

open Block Checked

/-- Empty texts have no place to be wrong in. -/
theorem stands_container {named inside : Bool} {blocks : List Block}
    (h : (Block.container blocks).Stands named inside) :
    (container blocks).Stands named inside := by
  obtain ⟨hflat, hplaced⟩ := h
  simp only [isFlat, isPlaced, allFlat_eq, allPlaced_eq] at hflat hplaced
  constructor
  · rw [container, isFlat, allFlat_eq, List.all_filter, ← hflat]
    congr 1
    funext block
    cases block <;> simp [isFlat]
  · rw [container, isPlaced, allPlaced_eq]
    rw [List.all_eq_true] at hplaced ⊢
    exact fun block hblock => hplaced block (List.mem_filter.mp hblock).1

theorem stands_injection (mode : InjectMode) (source : String) (site : Site) (inside : Bool) :
    (injection mode source site).value.Stands false inside := by
  unfold injection
  split <;> exact ⟨rfl, rfl⟩

/-- An expression that was read without a fault is there. -/
theorem ensures_expr (source : String) (position : Position) :
    Ensures (fun found => ∃ e, found = some e) (expr source position) := by
  unfold expr
  split
  · next e _ => exact .value ⟨e, rfl⟩
  · next hsilent => exact absurd rfl (Expr.issues_of_parse hsilent)
  · exact .reported

variable {named inside : Bool} {body : Checked Block}

theorem ensures_indexing (params : List Attribute) (position : Position)
    (hbody : Ensures (Stands named true) body) :
    Ensures (Stands true inside) (indexing params position body) := by
  have hbuild : ∀ (style : IndexStyle) (start : Option Expr), Ensures (Stands true inside)
      (do return Block.indexing style (start.getD (.int 1)) (← body)) := fun _ _ =>
    hbody.bind fun _ hstands => .value ⟨rfl, hstands.placed⟩
  unfold indexing
  apply (Ensures.any _).bind
  intro style _
  split
  · exact (Ensures.any _).bind fun start _ => hbuild style start
  · exact hbuild style none

/-- A marker of what is revealed, its value read from the parameters. -/
theorem ensures_revealed (params : List Attribute) (position : Position)
    (hbody : Ensures (Stands named inside) body) (input : Option String) :
    Ensures (Stands true inside) (do
      let value ← match ← neededParam "reveal" params "value" position with
        | some source => expr source position
        | none => pure none
      return Block.reveal (input.getD "") (value.getD (.bool false)) (← body)) := by
  have hbuild : ∀ value : Option Expr, Ensures (Stands true inside)
      (do return Block.reveal (input.getD "") (value.getD (.bool false)) (← body)) := fun _ =>
    hbody.bind fun _ hstands => .value ⟨rfl, hstands.placed⟩
  apply (Ensures.any _).bind
  intro source _
  split
  · exact (Ensures.any _).bind fun value _ => hbuild value
  · exact hbuild none

theorem ensures_reveal (inputs : List String) (params : List Attribute) (position : Position)
    (hbody : Ensures (Stands named inside) body) :
    Ensures (Stands true inside) (reveal inputs params position body) := by
  have hvalue := ensures_revealed params position hbody
  unfold reveal
  apply (Ensures.any _).bind
  intro input _
  dsimp only
  split
  · split
    · exact .reported
    · exact hvalue _
  · exact hvalue _

theorem ensures_lang (params : List Attribute) (position : Position)
    (hbody : Ensures (Stands named inside) body) :
    Ensures (Stands true inside) (lang params position body) :=
  (Ensures.any _).bind fun _ _ => hbody.bind fun _ hstands => .value ⟨rfl, hstands.placed⟩

theorem ensures_named (inputs : List String) (inside : Bool) (name : String)
    (params : List Attribute) (position : Position)
    (hbody : Ensures (Stands named (inside || name == "indexing")) body) :
    Ensures (Stands true inside) (Reading.named inputs inside name params position body) := by
  unfold Reading.named
  split
  · exact .reported
  · apply (Ensures.any _).bind
    intro _ _
    split
    · next hindexing =>
        rw [hindexing, beq_self_eq_true, Bool.or_true] at hbody
        exact ensures_indexing params position hbody
    · next hother =>
        rw [beq_false_of_ne hother, Bool.or_false] at hbody
        split
        · cases inside with
          | true => exact .value ⟨rfl, rfl⟩
          | false => exact .reported
        · split
          · exact ensures_reveal inputs params position hbody
          · exact ensures_lang params position hbody

end Reading

open Checked Block

mutual

/-- A node that is read without a fault has markers where it has blocks known by
name, by its cases. -/
theorem Node.ensures_read (inputs : List String) (node : Node) (inside : Bool) :
    Ensures (Stands node.hasNamed inside) (node.read inputs inside) :=
  match node with
  | .root _ children =>
      (Node.ensures_readAll inputs children inside).bind fun _ hstands =>
        .value (Reading.stands_container hstands)
  | .raw _ _ | .escape _ _ | .comment _ _ => .value ⟨rfl, rfl⟩
  | .inject site mode expression =>
      ⟨fun _ => Reading.stands_injection mode expression site inside⟩
  | .define _ _ => (Ensures.any _).bind fun _ _ => .value ⟨rfl, rfl⟩
  | .cond _ branches => by
      apply (Node.ensures_readBranches inputs branches inside true none).bind
      intro arms harms
      dsimp only
      split
      · exact .reported
      · exact .value harms
  | .foreach site iterators children => by
      have hloop : Ensures (Stands (Node.anyNamed children) inside) (do
          let iterators ← Reading.pairs "foreach" site.position iterators
          let body ← Node.readAll inputs children inside
          return Block.foreach iterators (Reading.container body)) := by
        apply (Ensures.any _).bind
        intro pairs _
        apply (Node.ensures_readAll inputs children inside).bind
        intro body hstands
        obtain ⟨hflat, hplaced⟩ := Reading.stands_container hstands
        exact .value ⟨hflat, hplaced⟩
      unfold Node.read
      split
      · exact .reported
      · exact hloop
  | .named site name params children =>
      Reading.ensures_named inputs inside name params site.position
        ((Node.ensures_readAll inputs children (inside || name == "indexing")).bind
          fun _ hstands => .value (Reading.stands_container hstands))
termination_by structural node

theorem Node.ensures_readAll (inputs : List String) (nodes : List Node) (inside : Bool) :
    Ensures (fun blocks => (Block.container blocks).Stands (Node.anyNamed nodes) inside)
      (Node.readAll inputs nodes inside) :=
  match nodes with
  | [] => .value ⟨rfl, rfl⟩
  | node :: rest =>
      (node.ensures_read inputs inside).bind fun _ hfirst =>
        (Node.ensures_readAll inputs rest inside).bind fun _ hrest =>
          .value (stands_cons hfirst hrest)
termination_by structural nodes

/-- A second `else`, or a condition after one, is a fault; so no arm is lost. -/
theorem Node.ensures_readBranches (inputs : List String) (branches : List (Branch Node))
    (inside isFirst : Bool) (otherwise : Option Block) :
    Ensures (fun arms =>
      match otherwise with
      | none => (Block.cond arms.1 arms.2).Stands (Node.anyBranchNamed branches) inside
      | some body => branches = [] ∧ arms = ([], some body))
      (Node.readBranches inputs branches inside isFirst otherwise) :=
  match branches with
  | [] => by
      cases otherwise with
      | none => exact .value ⟨rfl, rfl⟩
      | some body => exact .value ⟨rfl, rfl⟩
  | ⟨some condition, children, position⟩ :: rest => by
      unfold Node.readBranches
      cases otherwise with
      | some body => exact .reported
      | none =>
          apply (Reading.ensures_expr condition position).bind
          rintro _ ⟨test, rfl⟩
          apply (Node.ensures_readAll inputs children inside).bind
          intro blocks hblocks
          apply (Node.ensures_readBranches inputs rest inside false none).bind
          intro arms harms
          exact .value (stands_branch (Reading.stands_container hblocks) harms)
  | ⟨none, children, position⟩ :: rest => by
      unfold Node.readBranches
      cases otherwise with
      | some body =>
          rw [Option.isSome_some, Bool.or_true]
          exact .reported
      | none =>
          dsimp only
          split
          · exact .reported
          · apply (Node.ensures_readAll inputs children inside).bind
            intro blocks hblocks
            constructor
            intro hfaults
            obtain ⟨rfl, harms⟩ := (Node.ensures_readBranches inputs rest inside false
              (some (Reading.container blocks))).holds hfaults
            rw [harms]
            have hbody := stands_otherwise (Reading.stands_container hblocks)
            simpa [Node.anyBranchNamed] using hbody
termination_by structural branches

end

/-- The block of a template has markers where the template has blocks known by
name, and every `index` in its place. -/
theorem Node.stands_toBlock {node : Node} {inputs : List String} {block : Block}
    {map : List Bool} (h : (node.mark map).toBlock inputs = .ok block) :
    block.Stands node.hasNamed false := by
  obtain ⟨hfaults, rfl⟩ := Checked.result_eq_ok_iff.mp h
  rw [← Node.hasNamed_mark map node]
  exact (Node.ensures_read inputs (node.mark map) false).holds hfaults

end SceneQuiz
