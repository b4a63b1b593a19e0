import SceneQuiz.Proofs.ResponseTree.ScoredWalk
/-!
Errors of a walk.  A visit has an error for a test that raises one, and another
for a branch that does; the function lists the places of all of them, or returns
nothing at all if one node has too many.
-/

namespace SceneQuiz

namespace ResponseTree

open SceneQuiz.Expr (Evaluates)

/-- What went wrong at a visited node. -/
structure Mishaps where
  node : Node
  inTest : Bool
  inBranch : Bool

/-- One error for the test, and one for the branch. -/
def Mishaps.count (mishaps : Mishaps) : Nat :=
  mishaps.inTest.toNat + mishaps.inBranch.toNat

section Spec

variable (tree : ResponseTree) (conduct : Node → Conduct)

/-- Where the errors of a visit are reported: `node:i/test` comes before
`node:i/true` or `node:i/false`. -/
def Mishaps.places (mishaps : Mishaps) : List Value :=
  let index := (tree.indexOf? mishaps.node.name).getD 0
  let outcome := (verdictOf conduct mishaps.node).outcome
  (if mishaps.inTest then [.str (testLocator index).text] else []) ++
    if mishaps.inBranch then [.str (branchLocator index outcome).text] else []

/-- What goes wrong at some nodes, one after the other.  Whether a branch raises
an error may depend on the accumulators before it. -/
def mishapsFrom (tally : Tally) : List Node → List Mishaps
  | [] => []
  | node :: rest =>
      let settled := tally.settle tree (taken conduct node) (conduct node)
      ⟨node, (verdictOf conduct node).isRaised, settled.2⟩ ::
        mishapsFrom settled.1 rest

/-- What goes wrong on a walk. -/
def mishapsOf (visited : List Node) : List Mishaps :=
  mishapsFrom tree conduct ⟨.int 0, .int 0⟩ visited

end Spec

variable {tree : ResponseTree} {conduct : Node → Conduct} {ctx : TreeContext}
  {machine : Machine}

/-- One visit adds its errors to the account. -/
theorem Account.visit_eq (account : Account) (node : Node) :
    let settled := account.toTally.settle tree (taken conduct node) (conduct node)
    let mishaps : Mishaps :=
      ⟨node, (verdictOf conduct node).isRaised, settled.2⟩
    (account.visit tree conduct node).toTally = settled.1 ∧
      (account.visit tree conduct node).errors =
        account.errors ++ mishaps.places tree conduct ∧
      (account.visit tree conduct node).most = max account.most mishaps.count := by
  dsimp only
  have htest : (verdictOf conduct node).errorCount =
      (verdictOf conduct node).isRaised.toNat := by
    unfold Verdict.errorCount
    cases (verdictOf conduct node).isRaised <;> rfl
  rcases hsettled : account.toTally.settle tree (taken conduct node)
    (conduct node) with ⟨after, raised⟩
  have hsame : (account.tested (conduct node).verdict
      ((tree.indexOf? node.name).getD 0)).toTally.settle tree
        (node.branch (conduct node).verdict.outcome) (conduct node) =
      (after, raised) := hsettled
  simp only [Account.visit, Account.took, hsame]
  cases raised with
  | true =>
      refine ⟨rfl, List.append_assoc .., ?_⟩
      exact congrArg (fun count => max account.most (count + 1)) htest
  | false =>
      refine ⟨rfl, ?_, congrArg (max account.most) htest⟩
      exact congrArg (account.errors ++ ·) (List.append_nil _).symm

/-- The account of a walk lists the errors of its visits. -/
theorem errors_foldl_visit (account : Account) (visited : List Node) :
    (visited.foldl (Account.visit tree conduct) account).errors =
      account.errors ++
        (mishapsFrom tree conduct account.toTally visited).flatMap
          (Mishaps.places tree conduct) := by
  induction visited generalizing account with
  | nil => simp [mishapsFrom]
  | cons node rest ih =>
      obtain ⟨htally, herrors, _⟩ := account.visit_eq node
      rw [List.foldl_cons, ih, htally, herrors, mishapsFrom, List.flatMap_cons,
        List.append_assoc]

/-- The account of a walk stays within a limit exactly if every visit does. -/
theorem most_foldl_visit_le_iff (account : Account) (visited : List Node)
    (limit : Nat) :
    (visited.foldl (Account.visit tree conduct) account).most ≤ limit ↔
      account.most ≤ limit ∧
        ∀ mishaps ∈ mishapsFrom tree conduct account.toTally visited,
          mishaps.count ≤ limit := by
  induction visited generalizing account with
  | nil => simp [mishapsFrom]
  | cons node rest ih =>
      obtain ⟨htally, _, hmost⟩ := account.visit_eq node
      rw [List.foldl_cons, ih, htally, hmost, mishapsFrom, Nat.max_le,
        List.forall_mem_cons, and_assoc]

theorem errors_accountOf (visited : List Node) :
    (accountOf tree conduct visited).errors =
      (mishapsOf tree conduct visited).flatMap (Mishaps.places tree conduct) :=
  errors_foldl_visit .start visited

theorem most_accountOf_le_iff {visited : List Node} {limit : Nat} :
    (accountOf tree conduct visited).most ≤ limit ↔
      ∀ mishaps ∈ mishapsOf tree conduct visited, mishaps.count ≤ limit := by
  rw [accountOf, most_foldl_visit_le_iff]
  exact and_iff_right (Nat.zero_le limit)

/-- Errors do not change the walk, and the function accounts for each of them:
it returns nothing if a visited node has more than are tolerated, and otherwise
lists the places of all errors in the order of the visits. -/
theorem invoke_accounts_for_errors {compiled : Compiled} {log : Log}
    (hcompile : tree.compile ctx = (some compiled, log)) (hscores : tree.OnlyScores)
    (hsmall : ctx.options.nodeErrorLimit < Decimal.twoPow 32)
    (hplain : machine.HasBuiltins) (hloaded : compiled.IsLoaded machine)
    (hconducted : Conducted tree conduct ctx machine)
    (hnumeric : tree.isScored = true →
      EndsNumeric tree conduct ctx.options.nodeErrorLimit)
    (hgas : ∀ after, Eval.invoke compiled.function [] machine ≠
      .error .gasExhausted after) :
    ∃ before last value after, Reached tree (verdictOf conduct) before last ∧
      ((before ++ [last]).map Node.name).Nodup ∧
      (∀ mishaps ∈ mishapsOf tree conduct before,
        mishaps.count ≤ ctx.options.nodeErrorLimit) ∧
      Eval.invoke compiled.function [] machine = .ok value after ∧
      ((∃ mishaps ∈ mishapsOf tree conduct (before ++ [last]),
          ctx.options.nodeErrorLimit < mishaps.count) →
        value = .list []) ∧
      ((∀ mishaps ∈ mishapsOf tree conduct (before ++ [last]),
          mishaps.count ≤ ctx.options.nodeErrorLimit) →
        (∀ target, (taken conduct last).exit ≠ .node target) ∧
        ∃ score penalty scene, value = .list [score, penalty,
          .list (((before ++ [last]).map fun node => Value.str
            (pathToken node.name (verdictOf conduct node).outcome)).reverse),
          .list ((before ++ [last]).map fun node => .list [.str node.name,
            .bool (verdictOf conduct node).outcome,
            (verdictOf conduct node).note]),
          .list (.str rootTag ::
            feedbackOf (verdictOf conduct) (before ++ [last])),
          scene, .list [],
          .list ((mishapsOf tree conduct (before ++ [last])).flatMap
            (Mishaps.places tree conduct))]) := by
  obtain ⟨before, last, value, spent, hreached, hnodup, hbefore, hreturns, hrun⟩ :=
    invoke_scored hcompile hscores hsmall hplain hloaded hconducted hnumeric hgas
  refine ⟨before, last, value, _, hreached, hnodup,
    most_accountOf_le_iff.mp hbefore, hrun, ?_, ?_⟩
  · rintro ⟨mishaps, hmem, hover⟩
    have hmost : ctx.options.nodeErrorLimit <
        (accountOf tree conduct (before ++ [last])).most := by
      rw [← Nat.not_le, most_accountOf_le_iff]
      exact fun hall => Nat.not_le.mpr hover (hall mishaps hmem)
    rwa [Returns, if_pos hmost] at hreturns
  · intro hall
    have hmost := Nat.not_lt.mpr (most_accountOf_le_iff.mpr hall)
    rw [Returns, if_neg hmost] at hreturns
    obtain ⟨hends, shown, _, rfl⟩ := hreturns
    rw [← errors_accountOf]
    exact ⟨hends, shown.score, shown.penalty, _, rfl⟩

/-- Its test raises an error, and so does the score of the branch that is taken
then. -/
def stumblingNode : Node :=
  ⟨"a", "Same", "0", "1", "", true, .plain,
    { Branch.plain with score := some "1/0", exit := .node "b" }⟩

/-- Its test passes. -/
def steadyNode : Node :=
  ⟨"b", "Same", "1", "1", "", true, { Branch.plain with score := some "1" },
    .plain⟩

def stumblingTree : ResponseTree :=
  { forkTree with nodes := [stumblingNode, steadyNode] }

theorem mem_stumblingTree {node : Node} (h : node ∈ stumblingTree.nodes) :
    node = stumblingNode ∨ node = steadyNode := by
  simpa [stumblingTree] using h

/-- Two errors of one node are tolerated. -/
def stumblingContext : TreeContext :=
  { forkContext with options := { Options.default with nodeErrorLimit := 2 } }

/-- A test for equal numbers that does not accept zero. -/
def pickyTest : HostFunction
  | [.int 0, _] => .error (.raised "zero")
  | args => sameTest args

def stumblingConduct (node : Node) : Conduct :=
  if node.name = "a" then
    ⟨.raised (.raised "zero"), .error .divisionByZero, .ok (.int 0)⟩
  else ⟨.judged true (.str "") (.str ""), .ok (.int 1), .ok (.int 0)⟩

theorem stumblingTree_onlyScores : stumblingTree.OnlyScores where
  setup := rfl
  branches := by
    intro node hnode outcome
    rcases mem_stumblingTree hnode with rfl | rfl <;> cases outcome <;>
      exact ⟨rfl, rfl⟩

theorem stumblingTree_compiles :
    (stumblingTree.compile stumblingContext).1.isSome = true := by
  decide +kernel

def stumblingCompiled : Compiled :=
  (stumblingTree.compile stumblingContext).1.get stumblingTree_compiles

theorem stumblingTree_compile :
    stumblingTree.compile stumblingContext =
      (some stumblingCompiled, (stumblingTree.compile stumblingContext).2) := by
  rw [stumblingCompiled, Option.some_get]

theorem stumblingTree_conducted :
    Conducted stumblingTree stumblingConduct stumblingContext
      (stumblingCompiled.loadedWith pickyTest) := by
  have hhost : (stumblingCompiled.loadedWith pickyTest).hosts.get? "ATSame" =
      some pickyTest := rfl
  intro visited node hreached _
  rcases mem_stumblingTree hreached.mem with rfl | rfl
  · refine ⟨rfl, ?_, ?_, ?_, ?_, ?_⟩
    · exact Expr.evaluates_host hhost (by decide)
        (.cons (Expr.evaluates_nat (n := 0) (by decide))
          (.cons (Expr.evaluates_nat (n := 1) (by decide)) .nil)) rfl
    · rintro _ ⟨⟩
      exact Expr.evaluates_operator rfl (Expr.evaluates_nat (n := 1) (by decide))
        (Expr.evaluates_nat (n := 0) (by decide)) rfl
    · rintro _ _ ⟨⟩
    · rintro _ ⟨⟩
      rfl
    · rintro _ ⟨⟩
  · refine ⟨trivial, ?_, ?_, ?_, ?_, ?_⟩
    · exact Expr.evaluates_host hhost (by decide)
        (.cons (Expr.evaluates_nat (n := 1) (by decide))
          (.cons (Expr.evaluates_nat (n := 1) (by decide)) .nil)) rfl
    · rintro _ ⟨⟩
      exact Expr.evaluates_nat (n := 1) (by decide)
    · rintro _ _ _ ⟨⟩
    · rintro _ ⟨⟩
    · rintro _ ⟨⟩

theorem stumblingTree_reached {visited : List Node} {node : Node}
    (h : Reached stumblingTree (verdictOf stumblingConduct) visited node) :
    (visited = [] ∧ node = stumblingNode) ∨
      (visited = [stumblingNode] ∧ node = steadyNode) :=
  h.of_pair (fun _ => mem_stumblingTree) (by decide) rfl fun _ hexit => by cases hexit

theorem stumblingTree_endsNumeric :
    EndsNumeric stumblingTree stumblingConduct 2 := by
  intro before last hreached hends _
  rcases stumblingTree_reached hreached with ⟨rfl, rfl⟩ | ⟨rfl, rfl⟩
  · exact absurd rfl (hends "b")
  · exact ⟨rfl, rfl⟩

/-- Both errors of the first node are listed, and the second node is visited. -/
theorem invoke_stumbling :
    ∃ score penalty path results feedback scene after,
      Eval.invoke stumblingCompiled.function []
          (stumblingCompiled.loadedWith pickyTest) =
        .ok (.list [score, penalty, path, results, feedback, scene, .list [],
          .list [.str "node:0/test", .str "node:0/false"]]) after := by
  have hgas : ∀ after, Eval.invoke stumblingCompiled.function []
      (stumblingCompiled.loadedWith pickyTest) ≠ .error .gasExhausted after :=
    ne_exhausted (by decide +kernel)
  obtain ⟨before, last, value, after, hreached, -, -, hrun, -, hlisted⟩ :=
    invoke_accounts_for_errors stumblingTree_compile stumblingTree_onlyScores
      (by decide)
      (stumblingTree_onlyScores.hasBuiltins_loadedWith stumblingTree_compile _)
      (stumblingTree_onlyScores.isLoaded_loadedWith stumblingTree_compile _)
      stumblingTree_conducted (fun _ => stumblingTree_endsNumeric) hgas
  rcases stumblingTree_reached hreached with ⟨rfl, rfl⟩ | ⟨rfl, rfl⟩
  · obtain ⟨hends, -⟩ := hlisted (by decide)
    exact absurd rfl (hends "b")
  · obtain ⟨-, score, penalty, scene, rfl⟩ := hlisted (by decide)
    exact ⟨score, penalty, _, _, _, scene, after, hrun⟩

end ResponseTree

end SceneQuiz
