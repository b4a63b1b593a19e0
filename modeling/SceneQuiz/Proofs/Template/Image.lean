import SceneQuiz.Proofs.Template.CheckedReading
import SceneQuiz.Proofs.Template.SkipCoverage
/-!
What a template is read to.  The image of a node is given by rules, one for each
kind of node, with every expression in it read from its text.  A template is read
to a block exactly if the block is its image, so nothing of it gets lost on the
way without a fault.
-/

namespace SceneQuiz

open Checked Reading

/-- A node that shows nothing: no text or a comment. -/
def Node.isEmptyText : Node → Bool
  | .raw _ text | .escape _ text => text == ""
  | .comment _ _ => true
  | _ => false

mutual

/-- The block that a node stands for, inside an `indexing` or not. -/
inductive Node.Image (inputs : List String) : Bool → Node → Block → Prop
  | root {inside : Bool} {site : Site} {children : List Node} {items : List Block} :
      Node.Items inputs inside children items →
        Node.Image inputs inside (.root site children) (.container items)
  | raw {inside : Bool} {site : Site} {text : String} :
      Node.Image inputs inside (.raw site text) (.text text)
  | escape {inside : Bool} {site : Site} {value : String} :
      Node.Image inputs inside (.escape site value) (.text value)
  | comment {inside : Bool} {site : Site} {text : String} :
      Node.Image inputs inside (.comment site text) (.text "")
  | inject {inside : Bool} {site : Site} {mode : InjectMode} {source : String} {block : Block} :
      InjectionRead mode source site block →
        Node.Image inputs inside (.inject site mode source) block
  | define {inside : Bool} {site : Site} {bindings : List Attribute}
      {pairs : List (String × Expr)} : List.Forall₂ PairRead bindings pairs →
        Node.Image inputs inside (.define site bindings) (.define pairs)
  /-- An `else` is not alone. -/
  | cond {inside : Bool} {site : Site} {branches : List (Branch Node)}
      {arms : List (Expr × Block)} {otherwise : Option Block} :
      Node.Arms inputs inside branches arms otherwise → arms ≠ [] →
        Node.Image inputs inside (.cond site branches) (.cond arms otherwise)
  | foreach {inside : Bool} {site : Site} {iterators : List Attribute} {children : List Node}
      {pairs : List (String × Expr)} {items : List Block} :
      iterators ≠ [] → List.Forall₂ PairRead iterators pairs →
        Node.Items inputs inside children items →
        Node.Image inputs inside (.foreach site iterators children)
          (.foreach pairs (.container items))
  | indexing {inside : Bool} {site : Site} {params : List Attribute} {children : List Node}
      {style : IndexStyle} {start : Expr} {items : List Block} :
      (∀ param ∈ params, param.name ∈ allowedParams "indexing") →
        IndexStyle.ofPattern? ((param? params "style").getD "1") = some style →
        StartRead params start → Node.Items inputs true children items →
        Node.Image inputs inside (.named site "indexing" params children)
          (.indexing style start (.container items))
  | index {site : Site} {params : List Attribute} {children : List Node} :
      (∀ param ∈ params, param.name ∈ allowedParams "index") →
        Node.Image inputs true (.named site "index" params children) .index
  | reveal {inside : Bool} {site : Site} {params : List Attribute} {children : List Node}
      {input source : String} {value : Expr} {items : List Block} :
      (∀ param ∈ params, param.name ∈ allowedParams "reveal") →
        param? params "input" = some input → input ∈ inputs →
        param? params "value" = some source → Expr.parse source = .ok value →
        Node.Items inputs inside children items →
        Node.Image inputs inside (.named site "reveal" params children)
          (.reveal input value (.container items))
  | lang {inside : Bool} {site : Site} {params : List Attribute} {children : List Node}
      {codes : String} {items : List Block} :
      (∀ param ∈ params, param.name ∈ allowedParams "lang") →
        param? params "code" = some codes → Node.Items inputs inside children items →
        Node.Image inputs inside (.named site "lang" params children)
          (.lang (languageCodes codes) (.container items))

/-- The images of several nodes in order, without those that show nothing. -/
inductive Node.Items (inputs : List String) : Bool → List Node → List Block → Prop
  | nil {inside : Bool} : Node.Items inputs inside [] []
  | skip {inside : Bool} {node : Node} {rest : List Node} {items : List Block} :
      node.isEmptyText = true → Node.Items inputs inside rest items →
        Node.Items inputs inside (node :: rest) items
  | cons {inside : Bool} {node : Node} {rest : List Node} {block : Block}
      {items : List Block} : node.isEmptyText = false → Node.Image inputs inside node block →
        Node.Items inputs inside rest items →
        Node.Items inputs inside (node :: rest) (block :: items)

/-- The images of branches: those with a condition in order, and after them at
most one `else`. -/
inductive Node.Arms (inputs : List String) :
    Bool → List (Branch Node) → List (Expr × Block) → Option Block → Prop
  | nil {inside : Bool} : Node.Arms inputs inside [] [] none
  | otherwise {inside : Bool} {children : List Node} {position : Position}
      {items : List Block} : Node.Items inputs inside children items →
        Node.Arms inputs inside [⟨none, children, position⟩] [] (some (.container items))
  | cons {inside : Bool} {condition : String} {children : List Node} {position : Position}
      {rest : List (Branch Node)} {test : Expr} {items : List Block}
      {arms : List (Expr × Block)} {otherwise : Option Block} :
      Expr.parse condition = .ok test → Node.Items inputs inside children items →
        Node.Arms inputs inside rest arms otherwise →
        Node.Arms inputs inside (⟨some condition, children, position⟩ :: rest)
          ((test, .container items) :: arms) otherwise

end

/-- A block that is shown. -/
def Block.isShown : Block → Bool
  | .text shown => shown != ""
  | _ => true

namespace Node

variable {inputs : List String} {inside : Bool}

/-- Only a node that shows nothing has an image that is left out. -/
theorem Image.isShown {node : Node} {block : Block} (h : node.Image inputs inside block) :
    block.isShown = !node.isEmptyText := by
  cases h with
  | inject hread => cases hread; rfl
  | _ => rfl

theorem exists_image_of_isEmptyText {node : Node} (h : node.isEmptyText = true) :
    ∃ block, node.Image inputs inside block := by
  cases node with
  | raw | escape | comment => exact ⟨_, by constructor⟩
  | _ => cases h

/-- The blocks that are shown, of work without fault. -/
def Shows (checked : Checked (List Block)) (items : List Block) : Prop :=
  ∃ blocks, checked = pure blocks ∧ blocks.filter Block.isShown = items

theorem container_eq_pure {checked : Checked (List Block)} {block : Block} :
    container <$> checked = pure block ↔
      ∃ items, Shows checked items ∧ block = .container items := by
  rw [map_eq_pure]
  constructor
  · rintro ⟨blocks, hblocks, rfl⟩
    exact ⟨_, ⟨blocks, hblocks, rfl⟩, rfl⟩
  · rintro ⟨_, ⟨blocks, hblocks, rfl⟩, rfl⟩
    exact ⟨blocks, hblocks, rfl⟩

/-- A block known by name, with what its children are read to. -/
theorem named_eq_pure {site : Site} {name : String} {params : List Attribute}
    {children : List Node} {checked : Checked (List Block)} {block : Block}
    (hchildren : ∀ items, Shows checked items ↔
      Node.Items inputs (inside || name == "indexing") children items) :
    Reading.named inputs inside name params site.position (container <$> checked) =
        pure block ↔ Node.Image inputs inside (.named site name params children) block := by
  unfold Reading.named
  split
  · next hunknown =>
      refine ⟨fun h => absurd h report_ne_pure, fun h => absurd ?_ hunknown⟩
      cases h <;> decide
  · next hknown =>
      have hname : name = "indexing" ∨ name = "index" ∨ name = "reveal" ∨ name = "lang" := by
        rw [Decidable.not_not] at hknown
        simpa [Block.knownNames] using hknown
      rw [unit_bind_eq_pure, checkParams_eq_pure]
      constructor
      · rintro ⟨hparams, h⟩
        rcases hname with rfl | rfl | rfl | rfl
        · obtain ⟨style, start, inner, hstyle, hstart, hbody, rfl⟩ := indexing_eq_pure.mp h
          obtain ⟨items, hitems, rfl⟩ := container_eq_pure.mp hbody
          rw [hchildren, beq_self_eq_true, Bool.or_true] at hitems
          exact .indexing hparams hstyle hstart hitems
        · cases inside with
          | false => exact absurd h report_ne_pure
          | true =>
              cases pure_eq_pure.mp h
              exact .index hparams
        · obtain ⟨input, source, value, inner, hinput, hinputs, hsource, hvalue, hbody, rfl⟩ :=
            reveal_eq_pure.mp h
          obtain ⟨items, hitems, rfl⟩ := container_eq_pure.mp hbody
          rw [hchildren, beq_false_of_ne (by decide), Bool.or_false] at hitems
          exact .reveal hparams hinput hinputs hsource hvalue hitems
        · obtain ⟨codes, inner, hcodes, hbody, rfl⟩ := lang_eq_pure.mp h
          obtain ⟨items, hitems, rfl⟩ := container_eq_pure.mp hbody
          rw [hchildren, beq_false_of_ne (by decide), Bool.or_false] at hitems
          exact .lang hparams hcodes hitems
      · intro h
        cases h with
        | indexing hparams hstyle hstart hitems =>
            rw [← Bool.or_true inside] at hitems
            exact ⟨hparams, indexing_eq_pure.mpr ⟨_, _, _, hstyle, hstart,
              container_eq_pure.mpr ⟨_, (hchildren _).mpr hitems, rfl⟩, rfl⟩⟩
        | index hparams => exact ⟨hparams, rfl⟩
        | reveal hparams hinput hinputs hsource hvalue hitems =>
            rw [← Bool.or_false inside] at hitems
            exact ⟨hparams, reveal_eq_pure.mpr ⟨_, _, _, _, hinput, hinputs, hsource, hvalue,
              container_eq_pure.mpr ⟨_, (hchildren _).mpr hitems, rfl⟩, rfl⟩⟩
        | lang hparams hcodes hitems =>
            rw [← Bool.or_false inside] at hitems
            exact ⟨hparams, lang_eq_pure.mpr ⟨_, _, hcodes,
              container_eq_pure.mpr ⟨_, (hchildren _).mpr hitems, rfl⟩, rfl⟩⟩

/-- After an `else` there is nothing more. -/
theorem readBranches_after {branches : List (Branch Node)} {isFirst : Bool} {body : Block}
    {arms : List (Expr × Block)} {otherwise : Option Block} :
    Node.readBranches inputs branches inside isFirst (some body) = pure (arms, otherwise) ↔
      branches = [] ∧ arms = [] ∧ otherwise = some body := by
  match branches with
  | [] => simp [Node.readBranches, pure_eq_pure, eq_comm]
  | ⟨some _, _, _⟩ :: _ =>
      exact ⟨fun h => absurd h report_ne_pure, fun h => absurd h.1 nofun⟩
  | ⟨none, _, _⟩ :: _ =>
      unfold Node.readBranches
      rw [if_pos (by simp)]
      exact ⟨fun h => absurd h report_ne_pure, fun h => absurd h.1 nofun⟩

mutual

theorem read_eq_pure (inputs : List String) (node : Node) (inside : Bool) (block : Block) :
    node.read inputs inside = pure block ↔ node.Image inputs inside block :=
  match node with
  | .root site children => by
      rw [Node.read, container_eq_pure]
      simp only [readAll_shows]
      constructor
      · rintro ⟨items, hitems, rfl⟩
        exact .root hitems
      · intro h
        cases h with
        | root hitems => exact ⟨_, hitems, rfl⟩
  | .raw site text => by
      rw [Node.read, pure_eq_pure]
      constructor
      · rintro rfl
        exact .raw
      · rintro ⟨⟩
        rfl
  | .escape site value => by
      rw [Node.read, pure_eq_pure]
      constructor
      · rintro rfl
        exact .escape
      · rintro ⟨⟩
        rfl
  | .comment site text => by
      rw [Node.read, pure_eq_pure]
      constructor
      · rintro rfl
        exact .comment
      · rintro ⟨⟩
        rfl
  | .inject site mode source => by
      rw [Node.read, injection_eq_pure]
      constructor
      · exact .inject
      · intro h
        cases h with
        | inject hread => exact hread
  | .define site bindings => by
      rw [Node.read, bind_eq_pure]
      simp only [pairs_eq_pure, pure_eq_pure]
      constructor
      · rintro ⟨pairs, hpairs, rfl⟩
        exact .define hpairs
      · intro h
        cases h with
        | define hpairs => exact ⟨_, hpairs, rfl⟩
  | .cond site branches => by
      rw [Node.read, bind_eq_pure]
      constructor
      · rintro ⟨⟨arms, otherwise⟩, harms, h⟩
        split at h
        · exact absurd h report_ne_pure
        · next hbranches =>
            cases pure_eq_pure.mp h
            obtain ⟨himage, hfirst⟩ := (readBranches_arms inputs branches inside _ _ _).mp harms
            exact .cond himage (hfirst rfl (mt List.isEmpty_iff.mpr hbranches))
      · intro h
        cases h with
        | @cond _ _ _ arms otherwise himage hsome =>
            have hbranches : ¬ branches.isEmpty = true := by
              intro hempty
              rw [List.isEmpty_iff.mp hempty] at himage
              cases himage
              exact hsome rfl
            refine ⟨(arms, otherwise), (readBranches_arms inputs branches inside _ _ _).mpr
              ⟨himage, fun _ _ => hsome⟩, ?_⟩
            rw [if_neg hbranches]
  | .foreach site iterators children => by
      rw [Node.read]
      split
      · next hempty =>
          refine ⟨fun h => absurd h report_ne_pure, fun h => ?_⟩
          cases h with
          | foreach hiterators => exact absurd (List.isEmpty_iff.mp hempty) hiterators
      · next hiterators =>
          simp only [bind_eq_pure, pairs_eq_pure, pure_eq_pure]
          constructor
          · rintro ⟨pairs, hpairs, blocks, hblocks, rfl⟩
            exact .foreach (mt List.isEmpty_iff.mpr hiterators) hpairs
              ((readAll_shows inputs children inside _).mp ⟨blocks, hblocks, rfl⟩)
          · intro h
            cases h with
            | foreach _ hpairs hitems =>
                obtain ⟨blocks, hblocks, rfl⟩ :=
                  (readAll_shows inputs children inside _).mpr hitems
                exact ⟨_, hpairs, blocks, hblocks, rfl⟩
  | .named site name params children => by
      rw [Node.read]
      exact named_eq_pure fun items => readAll_shows inputs children _ items
termination_by structural node

theorem readAll_shows (inputs : List String) (nodes : List Node) (inside : Bool)
    (items : List Block) :
    Shows (Node.readAll inputs nodes inside) items ↔ Node.Items inputs inside nodes items :=
  match nodes with
  | [] => by
      constructor
      · rintro ⟨blocks, hblocks, rfl⟩
        cases pure_eq_pure.mp hblocks
        exact .nil
      · rintro ⟨⟩
        exact ⟨[], rfl, rfl⟩
  | node :: rest => by
      have hread : ∀ blocks, Node.readAll inputs (node :: rest) inside = pure blocks ↔
          ∃ block, node.Image inputs inside block ∧
            ∃ others, Node.readAll inputs rest inside = pure others ∧ block :: others = blocks := by
        intro blocks
        rw [Node.readAll]
        simp only [bind_eq_pure, pure_eq_pure, read_eq_pure inputs node inside]
      constructor
      · rintro ⟨blocks, hblocks, rfl⟩
        obtain ⟨block, hblock, others, hothers, rfl⟩ := (hread blocks).mp hblocks
        have hrest := (readAll_shows inputs rest inside _).mp ⟨others, hothers, rfl⟩
        have hshown := hblock.isShown
        cases hempty : node.isEmptyText with
        | true =>
            rw [hempty] at hshown
            rw [List.filter_cons_of_neg (by rw [hshown]; decide)]
            exact .skip hempty hrest
        | false =>
            rw [hempty] at hshown
            rw [List.filter_cons_of_pos hshown]
            exact .cons hempty hblock hrest
      · intro h
        cases h with
        | skip hempty hrest =>
            obtain ⟨block, hblock⟩ := exists_image_of_isEmptyText hempty
            obtain ⟨others, hothers, rfl⟩ := (readAll_shows inputs rest inside _).mpr hrest
            have hshown := hblock.isShown
            rw [hempty] at hshown
            refine ⟨_, (hread _).mpr ⟨block, hblock, others, hothers, rfl⟩, ?_⟩
            rw [List.filter_cons_of_neg (by rw [hshown]; decide)]
        | cons hsome hblock hrest =>
            obtain ⟨others, hothers, rfl⟩ := (readAll_shows inputs rest inside _).mpr hrest
            have hshown := hblock.isShown
            rw [hsome] at hshown
            refine ⟨_, (hread _).mpr ⟨_, hblock, others, hothers, rfl⟩, ?_⟩
            rw [List.filter_cons_of_pos hshown]
termination_by structural nodes

theorem readBranches_arms (inputs : List String) (branches : List (Branch Node))
    (inside isFirst : Bool) (arms : List (Expr × Block)) (otherwise : Option Block) :
    Node.readBranches inputs branches inside isFirst none = pure (arms, otherwise) ↔
      Node.Arms inputs inside branches arms otherwise ∧
        (isFirst = true → branches ≠ [] → arms ≠ []) :=
  match branches with
  | [] => by
      rw [Node.readBranches, pure_eq_pure]
      constructor
      · rintro ⟨⟩
        exact ⟨.nil, fun _ hsome => absurd rfl hsome⟩
      · rintro ⟨⟨⟩, -⟩
        rfl
  | ⟨some condition, children, position⟩ :: rest => by
      rw [Node.readBranches]
      dsimp only [Option.isSome_none]
      rw [if_neg Bool.false_ne_true]
      simp only [bind_eq_pure, expr_eq_pure, pure_eq_pure]
      constructor
      · rintro ⟨_, ⟨test, htest, rfl⟩, blocks, hblocks, ⟨others, last⟩, hrest, ⟨⟩⟩
        have hitems := (readAll_shows inputs children inside _).mp ⟨blocks, hblocks, rfl⟩
        have harms := ((readBranches_arms inputs rest inside false _ _).mp hrest).1
        exact ⟨.cons htest hitems harms, fun _ _ => nofun⟩
      · rintro ⟨h, -⟩
        cases h with
        | cons htest hitems harms =>
            obtain ⟨blocks, hblocks, rfl⟩ :=
              (readAll_shows inputs children inside _).mpr hitems
            exact ⟨_, ⟨_, htest, rfl⟩, blocks, hblocks, _,
              (readBranches_arms inputs rest inside false _ _).mpr ⟨harms, nofun⟩, rfl⟩
  | ⟨none, children, position⟩ :: rest => by
      rw [Node.readBranches]
      split
      · next hmisplaced =>
          refine ⟨fun h => absurd h report_ne_pure, ?_⟩
          rintro ⟨h, hfirst⟩
          cases h
          exact absurd rfl (hfirst (by simpa using hmisplaced) nofun)
      · next hplaced =>
          simp only [bind_eq_pure, readBranches_after]
          constructor
          · rintro ⟨blocks, hblocks, rfl, rfl, rfl⟩
            have hitems := (readAll_shows inputs children inside _).mp ⟨blocks, hblocks, rfl⟩
            exact ⟨.otherwise hitems, fun hfirst => absurd (by simp [hfirst]) hplaced⟩
          · rintro ⟨h, -⟩
            cases h with
            | otherwise hitems =>
                obtain ⟨blocks, hblocks, rfl⟩ :=
                  (readAll_shows inputs children inside _).mpr hitems
                exact ⟨blocks, hblocks, rfl, rfl, rfl⟩
termination_by structural branches

end

/-- The texts of a node that are to be expressions, if `valuesOf` picks the values
of a parameter. -/
def expressionsBy (valuesOf : List Attribute → String → List String) : Node → List String
  | .define _ given | .foreach _ given _ => given.map Attribute.value
  | .cond _ branches => branches.filterMap Branch.condition
  | .named _ name params _ =>
      if name = "indexing" then valuesOf params "start"
      else if name = "reveal" then valuesOf params "value"
      else []
  | _ => []

/-- All values of a parameter. -/
def allValues (params : List Attribute) (name : String) : List String :=
  (params.filter fun param => param.name == name).map Attribute.value

/-- The value that counts for a parameter, which is the first one. -/
def firstValue (params : List Attribute) (name : String) : List String :=
  (param? params name).toList

/-- The code of a node is such as it should be: an injection is one statement and
its other texts are expressions. -/
structure Readable (valuesOf : List Attribute → String → List String) (node : Node) : Prop where
  expressions : ∀ source ∈ node.expressionsBy valuesOf, ∃ e, Expr.parse source = .ok e
  injection : ∀ {site mode source}, node = .inject site mode source →
    ∃ statement, Fragment.parse source = .ok [statement]

/-- The children that are read: an `index` keeps no body. -/
def body : Node → List Node
  | .named _ name _ children => if name = "index" then [] else children
  | node => node.children

/-- A node that is met when a template is read. -/
inductive Meets : Node → Node → Prop
  | top (node : Node) : Meets node node
  | child {top child node : Node} : child ∈ top.body → Meets child node → Meets top node

theorem Items.images {nodes : List Node} {items : List Block}
    (h : Node.Items inputs inside nodes items) :
    ∀ node ∈ nodes, ∃ block, node.Image inputs inside block := by
  induction nodes generalizing items with
  | nil => exact List.forall_mem_nil _
  | cons node rest ih =>
      rw [List.forall_mem_cons]
      cases h with
      | skip hempty hrest => exact ⟨exists_image_of_isEmptyText hempty, ih hrest⟩
      | cons _ hnode hrest => exact ⟨⟨_, hnode⟩, ih hrest⟩

theorem Arms.conditions {branches : List (Branch Node)} {arms : List (Expr × Block)}
    {otherwise : Option Block} (h : Node.Arms inputs inside branches arms otherwise) :
    ∀ source ∈ branches.filterMap Branch.condition, ∃ e, Expr.parse source = .ok e := by
  induction branches generalizing arms with
  | nil => exact List.forall_mem_nil _
  | cons branch rest ih =>
      cases h with
      | otherwise => exact List.forall_mem_nil _
      | cons htest _ hrest => exact List.forall_mem_cons.mpr ⟨⟨_, htest⟩, ih hrest⟩

theorem Arms.images {branches : List (Branch Node)} {arms : List (Expr × Block)}
    {otherwise : Option Block} (h : Node.Arms inputs inside branches arms otherwise) :
    ∀ node ∈ branches.flatMap Branch.children, ∃ block, node.Image inputs inside block := by
  induction branches generalizing arms with
  | nil => exact List.forall_mem_nil _
  | cons branch rest ih =>
      rw [List.flatMap_cons, List.forall_mem_append]
      cases h with
      | otherwise hitems => exact ⟨hitems.images, List.forall_mem_nil _⟩
      | cons _ hitems hrest => exact ⟨hitems.images, ih hrest⟩

theorem parses_of_pairs {given : List Attribute} {pairs : List (String × Expr)}
    (h : List.Forall₂ PairRead given pairs) :
    ∀ source ∈ given.map Attribute.value, ∃ e, Expr.parse source = .ok e := by
  induction h with
  | nil => exact List.forall_mem_nil _
  | cons hfirst _ ih => exact List.forall_mem_cons.mpr ⟨⟨_, hfirst.value⟩, ih⟩

/-- What a node with an image says is read. -/
theorem Image.readable {node : Node} {block : Block} (h : node.Image inputs inside block) :
    node.Readable firstValue := by
  cases h with
  | inject hread =>
      refine ⟨List.forall_mem_nil _, ?_⟩
      rintro _ _ _ ⟨⟩
      obtain ⟨hparse, -⟩ := hread
      exact ⟨_, hparse⟩
  | define hpairs => exact ⟨parses_of_pairs hpairs, by rintro _ _ _ ⟨⟩⟩
  | cond harms => exact ⟨harms.conditions, by rintro _ _ _ ⟨⟩⟩
  | foreach _ hpairs => exact ⟨parses_of_pairs hpairs, by rintro _ _ _ ⟨⟩⟩
  | @indexing _ _ params _ _ _ _ _ _ hstart =>
      refine ⟨fun source hsource => ?_, by rintro _ _ _ ⟨⟩⟩
      have hgiven : param? params "start" = some source := Option.mem_toList.mp hsource
      rw [StartRead, hgiven] at hstart
      exact ⟨_, hstart⟩
  | @reveal _ _ params _ _ _ _ _ _ _ _ hgiven hparse =>
      refine ⟨fun source hsource => ?_, by rintro _ _ _ ⟨⟩⟩
      have hsame : param? params "value" = some source := Option.mem_toList.mp hsource
      cases hgiven.symm.trans hsame
      exact ⟨_, hparse⟩
  | _ => exact ⟨List.forall_mem_nil _, by rintro _ _ _ ⟨⟩⟩

/-- The children that are read have images. -/
theorem Image.body {node : Node} {block : Block} (h : node.Image inputs inside block) :
    ∀ child ∈ node.body, ∃ inside block, child.Image inputs inside block := by
  have hitems : ∀ {inside : Bool} {nodes : List Node} {items : List Block},
      Node.Items inputs inside nodes items →
      ∀ child ∈ nodes, ∃ inside block, child.Image inputs inside block :=
    fun hitems child hchild => ⟨_, hitems.images child hchild⟩
  cases h with
  | root h | foreach _ _ h | indexing _ _ _ h | reveal _ _ _ _ _ h | lang _ _ h => exact hitems h
  | cond harms => exact fun child hchild => ⟨_, harms.images child hchild⟩
  | _ => exact List.forall_mem_nil _

theorem Meets.readable {top node : Node} (h : top.Meets node)
    (himage : ∃ inside block, top.Image inputs inside block) : node.Readable firstValue := by
  induction h with
  | top node =>
      obtain ⟨inside, block, himage⟩ := himage
      exact himage.readable
  | child hchild _ ih =>
      obtain ⟨inside, block, himage⟩ := himage
      exact ih (himage.body _ hchild)

/-- A template is read to a block exactly if that is its image, and then every
text in it that is met was read. -/
theorem toBlock_image (top : Node) (inputs : List String) (block : Block) :
    (top.toBlock inputs = .ok block ↔ top.Image inputs false block) ∧
      (top.toBlock inputs = .ok block → ∀ node, top.Meets node → node.Readable firstValue) := by
  have himage : top.toBlock inputs = .ok block ↔ top.Image inputs false block :=
    result_eq_ok.trans (read_eq_pure inputs top false block)
  exact ⟨himage, fun h node hnode => hnode.readable ⟨false, block, himage.mp h⟩⟩

/-- A numbered list of two alternatives, and a text shown for a known input. -/
def numberedTemplate : Node :=
  .root default [.define default [⟨"x", "1"⟩],
    .named default "indexing" [⟨"start", "x"⟩]
      [.cond default [⟨some "x < 2", [.named default "index" [] []], default⟩,
        ⟨none, [.inject default .latex "x^2, simp", .comment default "squared"], default⟩]],
    .named default "reveal" [⟨"input", "ans1"⟩, ⟨"value", "true"⟩] [.raw default "known"],
    .raw default ""]

def numberedBlock : Block :=
  .container [.define [("x", .number "1")],
    .indexing .plain (.ident "x") (.container
      [.cond [(.binary .less (.ident "x") (.number "2"), .container [.index])]
        (some (.container [.inject ⟨.latex, .binary .pow (.ident "x") (.number "2"), none,
          some true, false⟩]))]),
    .reveal "ans1" (.bool true) (.container [.text "known"])]

theorem numberedTemplate_image :
    numberedTemplate.toBlock ["ans1"] = .ok numberedBlock ∧
      numberedTemplate.Image ["ans1"] false numberedBlock ∧
      ∀ node, numberedTemplate.Meets node → node.Readable firstValue := by
  have hread : numberedTemplate.toBlock ["ans1"] = .ok numberedBlock := rfl
  have h := toBlock_image numberedTemplate ["ans1"] numberedBlock
  exact ⟨hread, h.1.mp hread, h.2 hread⟩

/-- An injection of half a sum. -/
def halfSum : Node := .inject default .value "1+"

/-- A list that is told twice where to start, with a body inside its `index`. -/
def restartedList : Node :=
  .named default "indexing" [⟨"start", "1"⟩, ⟨"start", "1+"⟩]
    [.named default "index" [] [halfSum]]

/-- A later value of a parameter and the body of an `index` are not read, so what
is wrong with them is not reported. -/
theorem restartedList_dropped :
    (∃ block, (Node.root default [restartedList]).toBlock [] = .ok block) ∧
      (Node.root default [restartedList]).Below 1 restartedList ∧
      ¬ restartedList.Readable allValues ∧
      (Node.root default [restartedList]).Below 3 halfSum ∧ ¬ halfSum.Readable allValues := by
  have hlist : restartedList ∈ (Node.root default [restartedList]).children :=
    List.mem_cons_self
  have hindex : Node.named default "index" [] [halfSum] ∈ restartedList.children :=
    List.mem_cons_self
  have hsum : halfSum ∈ (Node.named default "index" [] [halfSum]).children := List.mem_cons_self
  refine ⟨⟨_, rfl⟩, .child hlist (.top _), fun h => ?_,
    .child hlist (.child hindex (.child hsum (.top _))), fun h => ?_⟩
  · obtain ⟨e, he⟩ := h.expressions "1+" (by decide)
    cases he
  · obtain ⟨statement, hstatement⟩ := h.injection rfl
    cases hstatement

end Node

end SceneQuiz
