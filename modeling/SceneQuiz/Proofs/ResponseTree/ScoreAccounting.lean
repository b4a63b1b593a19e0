import SceneQuiz.Proofs.ResponseTree.ErrorAccounting
/-!
Totals of a walk.  Where scores and penalties are whole numbers, the function
adds up what the branches along the walk say, and returns 1 for a total of at
least 1 and 0 for any other.
-/

namespace SceneQuiz

/-- The integer that a literal, negated or not, stands for. -/
def Expr.wholeLiteral? : Expr → Option Int
  | .number text => Decimal.readWord? text
  | .neg (.number text) =>
      (Decimal.readWord? text).bind fun n => Decimal.asWord? (-n)
  | _ => none

theorem Expr.evaluates_wholeLiteral {machine : Machine} {env : Environment}
    {e : Expr} {n : Int} (h : e.wholeLiteral? = some n) :
    e.Evaluates machine env (.ok (.int n)) env := by
  have hnumber : ∀ {text : String} {m : Int}, Decimal.readWord? text = some m →
      (Expr.number text).Evaluates machine env (.ok (.int m)) env := by
    intro text m hread
    exact Expr.evaluates_number (by simp only [Value.ofNumber?, hread])
  unfold Expr.wholeLiteral? at h
  split at h
  · exact hnumber h
  · obtain ⟨m, hread, hword⟩ := Option.bind_eq_some_iff.mp h
    unfold Decimal.asWord? at hword
    split at hword
    · next hfits =>
        cases hword
        have hneg : (Value.int m).negate = .ok (.int (-m)) := if_pos hfits
        rw [← hneg]
        exact Expr.evaluates_neg (hnumber hread)
    · cases hword
  · cases h

/-- A total after a change by a number. -/
def ScoreChange.total (change : ScoreChange) (current n : Int) : Int :=
  match change with
  | .set => n
  | .add => current + n
  | .subtract => current - n

theorem ScoreChange.revise_int {change : ScoreChange} {current n : Int}
    (h : Decimal.fitsWord (change.total current n) = true) :
    change.revise (.int current) (.int n) = .ok (.int (change.total current n)) := by
  cases change with
  | set => rfl
  | add | subtract => exact if_pos h

namespace ResponseTree

open SceneQuiz.Expr (Evaluates)

/-- A total after a branch; a branch that has no number leaves it alone. -/
def adjusted (code : Option Expr) (change : ScoreChange) (total : Int) : Int :=
  match code.bind Expr.wholeLiteral? with
  | none => total
  | some n => change.total total n

/-- Scores and penalties that count are whole numbers. -/
structure Branch.IsWhole (tree : ResponseTree) (branch : Branch) : Prop where
  score : ∀ code, tree.counted branch.score = some code →
    code.wholeLiteral?.isSome = true
  penalty : ∀ code, tree.counted branch.penalty = some code →
    code.wholeLiteral?.isSome = true

section Totals

variable (tree : ResponseTree) (verdict : Node → Verdict)

/-- What the branches along a walk add up to, from 0 on. -/
def totalOf (source : Branch → Option String) (change : Branch → ScoreChange)
    (visited : List Node) : Int :=
  visited.foldl (fun total node =>
    let branch := node.branch (verdict node).outcome
    adjusted (tree.counted (source branch)) (change branch) total) 0

def scoreTotal (visited : List Node) : Int :=
  totalOf tree verdict Branch.score Branch.scoreChange visited

def penaltyTotal (visited : List Node) : Int :=
  totalOf tree verdict Branch.penalty Branch.penaltyChange visited

/-- How a node behaves whose scores are whole numbers. -/
def wholeConduct (node : Node) : Conduct :=
  let branch := node.branch (verdict node).outcome
  let value (source : Option String) : Value :=
    .int (((tree.counted source).bind Expr.wholeLiteral?).getD 0)
  ⟨verdict node, .ok (value branch.score), .ok (value branch.penalty)⟩

/-- The tests that a walk comes to give verdicts, and change nothing. -/
def GivesVerdicts (ctx : TreeContext) (machine : Machine) : Prop :=
  ∀ visited node, Reached tree verdict visited node →
    (verdict node).isRaised = false ∧
      (node.testCall ctx).Evaluates machine
        (testScope tree (wholeConduct tree verdict) machine.env visited)
        (verdict node).ending
        (testScope tree (wholeConduct tree verdict) machine.env visited)

/-- No total along a walk leaves 64 bits. -/
def TotalsFit : Prop :=
  ∀ visited node, Reached tree verdict visited node →
    Decimal.fitsWord (scoreTotal tree verdict (visited ++ [node])) = true ∧
      Decimal.fitsWord (penaltyTotal tree verdict (visited ++ [node])) = true

end Totals

variable {tree : ResponseTree} {verdict : Node → Verdict} {ctx : TreeContext}
  {machine : Machine}

theorem totalOf_concat (source : Branch → Option String)
    (change : Branch → ScoreChange) (visited : List Node) (node : Node) :
    totalOf tree verdict source change (visited ++ [node]) =
      adjusted (tree.counted (source (node.branch (verdict node).outcome)))
        (change (node.branch (verdict node).outcome))
        (totalOf tree verdict source change visited) :=
  List.foldl_concat ..

theorem revised_whole {code : Option Expr} {change : ScoreChange} {total : Int}
    (hwhole : ∀ e, code = some e → e.wholeLiteral?.isSome = true)
    (hfits : Decimal.fitsWord (adjusted code change total) = true) :
    revised code change (.ok (.int ((code.bind Expr.wholeLiteral?).getD 0)))
        (.int total) = .ok (.int (adjusted code change total)) := by
  cases code with
  | none => rfl
  | some e =>
      obtain ⟨n, hn⟩ := Option.isSome_iff_exists.mp (hwhole e rfl)
      simp only [adjusted, Option.bind_some, hn] at hfits ⊢
      exact ScoreChange.revise_int hfits

/-- The account of a walk holds the totals, and no error. -/
def Balanced (tree : ResponseTree) (verdict : Node → Verdict)
    (visited : List Node) : Prop :=
  (accountOf tree (wholeConduct tree verdict) visited).toTally =
      ⟨.int (scoreTotal tree verdict visited),
        .int (penaltyTotal tree verdict visited)⟩ ∧
    (accountOf tree (wholeConduct tree verdict) visited).most = 0

/-- A visit keeps the account balanced. -/
theorem Balanced.visit {visited : List Node} {node : Node}
    (h : Balanced tree verdict visited)
    (hwhole : (node.branch (verdict node).outcome).IsWhole tree)
    (hquiet : (verdict node).isRaised = false)
    (hscore : Decimal.fitsWord
      (scoreTotal tree verdict (visited ++ [node])) = true)
    (hpenalty : Decimal.fitsWord
      (penaltyTotal tree verdict (visited ++ [node])) = true) :
    Balanced tree verdict (visited ++ [node]) := by
  obtain ⟨htally, hmost⟩ := h
  unfold scoreTotal at hscore
  unfold penaltyTotal at hpenalty
  rw [totalOf_concat] at hscore hpenalty
  have hsettle : (accountOf tree (wholeConduct tree verdict)
      visited).toTally.settle tree (taken (wholeConduct tree verdict) node)
        (wholeConduct tree verdict node) =
      (⟨.int (scoreTotal tree verdict (visited ++ [node])),
        .int (penaltyTotal tree verdict (visited ++ [node]))⟩, false) := by
    rw [htally]
    unfold Tally.settle scoreTotal penaltyTotal
    rw [totalOf_concat, totalOf_concat]
    simp only [wholeConduct, taken, verdictOf,
      revised_whole hwhole.score hscore, revised_whole hwhole.penalty hpenalty]
  obtain ⟨hafter, -, hcount⟩ := @Account.visit_eq tree
    (wholeConduct tree verdict)
    (accountOf tree (wholeConduct tree verdict) visited) node
  have hnone : (verdictOf (wholeConduct tree verdict) node).isRaised = false :=
    hquiet
  rw [hsettle, hmost, hnone] at hcount
  rw [hsettle] at hafter
  unfold Balanced
  rw [accountOf_concat]
  exact ⟨hafter, hcount⟩

/-- The account is balanced wherever a walk comes to, and after the next
visit. -/
theorem Reached.balanced
    (hwhole : ∀ node ∈ tree.nodes, ∀ outcome, (node.branch outcome).IsWhole tree)
    (htested : GivesVerdicts tree verdict ctx machine) (hfit : TotalsFit tree verdict)
    {visited : List Node} {node : Node} (h : Reached tree verdict visited node) :
    Balanced tree verdict visited ∧ Balanced tree verdict (visited ++ [node]) := by
  have hvisit : ∀ {visited : List Node} {node : Node},
      Reached tree verdict visited node → Balanced tree verdict visited →
        Balanced tree verdict (visited ++ [node]) :=
    fun hreached hbalanced => hbalanced.visit
      (hwhole _ hreached.mem _) (htested _ _ hreached).1
      (hfit _ _ hreached).1 (hfit _ _ hreached).2
  induction h with
  | root hnode hname => exact ⟨⟨rfl, rfl⟩, hvisit (.root hnode hname) ⟨rfl, rfl⟩⟩
  | step hreached hnext hexit ih =>
      exact ⟨ih.2, hvisit (.step hreached hnext hexit) ih.2⟩

theorem GivesVerdicts.conducted
    (hwhole : ∀ node ∈ tree.nodes, ∀ outcome, (node.branch outcome).IsWhole tree)
    (htested : GivesVerdicts tree verdict ctx machine) :
    Conducted tree (wholeConduct tree verdict) ctx machine := by
  intro visited node hreached _
  obtain ⟨hquiet, htest⟩ := htested visited node hreached
  have hliteral : ∀ {source : Option String} {code : Expr} {env : Environment},
      tree.counted source = some code → code.wholeLiteral?.isSome = true →
        code.Evaluates machine env
          (.ok (.int (((tree.counted source).bind Expr.wholeLiteral?).getD 0)))
          env := by
    intro source code env hcode hsome
    obtain ⟨n, hn⟩ := Option.isSome_iff_exists.mp hsome
    rw [hcode, Option.bind_some, hn]
    exact Expr.evaluates_wholeLiteral hn
  have hbranch := hwhole node hreached.mem (verdict node).outcome
  refine ⟨?_, htest, fun code hcode => hliteral hcode (hbranch.score code hcode),
    fun _ code _ hcode => hliteral hcode (hbranch.penalty code hcode),
    fun _ h => (by cases h), fun _ h => (by cases h)⟩
  change (verdict node).IsTrappable
  cases hverdict : verdict node with
  | judged _ _ _ => trivial
  | raised error =>
      rw [hverdict] at hquiet
      cases hquiet

/-- The function adds up the whole scores and penalties along the direct walk,
and returns 1 for a total of at least 1 and 0 for any other. -/
theorem invoke_totals_scores {compiled : Compiled} {log : Log}
    (hcompile : tree.compile ctx = (some compiled, log)) (hscores : tree.OnlyScores)
    (hscored : tree.isScored = true)
    (hwhole : ∀ node ∈ tree.nodes, ∀ outcome, (node.branch outcome).IsWhole tree)
    (hsmall : ctx.options.nodeErrorLimit < Decimal.twoPow 32)
    (hplain : machine.HasBuiltins) (hloaded : compiled.IsLoaded machine)
    (htested : GivesVerdicts tree verdict ctx machine) (hfit : TotalsFit tree verdict)
    (hgas : ∀ after, Eval.invoke compiled.function [] machine ≠
      .error .gasExhausted after) :
    ∃ before last others after, Reached tree verdict before last ∧
      (∀ target, (last.branch (verdict last).outcome).exit ≠ .node target) ∧
      ((before ++ [last]).map Node.name).Nodup ∧
      Eval.invoke compiled.function [] machine = .ok (.list (
        .int (if 1 ≤ scoreTotal tree verdict (before ++ [last]) then 1 else 0) ::
        .int (if 1 ≤ penaltyTotal tree verdict (before ++ [last]) then 1 else 0) ::
        others)) after := by
  have hnumeric : EndsNumeric tree (wholeConduct tree verdict)
      ctx.options.nodeErrorLimit := by
    intro before last hreached _ _
    rw [(hreached.balanced hwhole htested hfit).2.1]
    exact ⟨rfl, rfl⟩
  obtain ⟨before, last, value, spent, hreached, hnodup, -, hreturns, hrun⟩ :=
    invoke_scored hcompile hscores hsmall hplain hloaded
      (htested.conducted hwhole) (fun _ => hnumeric) hgas
  obtain ⟨htally, hmost⟩ := (hreached.balanced hwhole htested hfit).2
  rw [Returns, hmost, if_neg (Nat.not_lt_zero _), htally, hscored] at hreturns
  obtain ⟨hends, shown, ⟨hscore, hpenalty⟩, rfl⟩ := hreturns
  obtain ⟨hpos, hbound⟩ := scoreScale_bounds ctx.options
  rw [Value.rounded_int hpos hbound] at hscore hpenalty
  rw [scoredAnswer, ← Except.ok.inj hscore, ← Except.ok.inj hpenalty] at hrun
  exact ⟨before, last, _, _, hreached, hends, hnodup, hrun⟩

/-- Its test fails: the score becomes -3 and the penalty 1. -/
def losingNode : Node :=
  ⟨"a", "Same", "1", "2", "", true, .plain,
    { Branch.plain with
      score := some "-3", penalty := some "1", exit := .node "b" }⟩

/-- Its test passes: 5 is added to the score, and 2 taken from the penalty. -/
def winningNode : Node :=
  ⟨"b", "Same", "1", "1", "", true,
    { Branch.plain with
      score := some "5", scoreChange := .add
      penalty := some "2", penaltyChange := .subtract }, .plain⟩

def tallyingTree : ResponseTree :=
  { forkTree with nodes := [losingNode, winningNode] }

theorem mem_tallyingTree {node : Node} (h : node ∈ tallyingTree.nodes) :
    node = losingNode ∨ node = winningNode := by
  simpa [tallyingTree] using h

theorem tallyingTree_onlyScores : tallyingTree.OnlyScores where
  setup := rfl
  branches := by
    intro node hnode outcome
    rcases mem_tallyingTree hnode with rfl | rfl <;> cases outcome <;>
      exact ⟨rfl, rfl⟩

theorem tallyingTree_isWhole {node : Node} (hnode : node ∈ tallyingTree.nodes)
    (outcome : Bool) : (node.branch outcome).IsWhole tallyingTree := by
  rcases mem_tallyingTree hnode with rfl | rfl <;> cases outcome <;>
    exact ⟨by rintro _ ⟨⟩ <;> rfl, by rintro _ ⟨⟩ <;> rfl⟩

theorem tallyingTree_compiles :
    (tallyingTree.compile forkContext).1.isSome = true := by
  decide +kernel

def tallyingCompiled : Compiled :=
  (tallyingTree.compile forkContext).1.get tallyingTree_compiles

theorem tallyingTree_compile :
    tallyingTree.compile forkContext =
      (some tallyingCompiled, (tallyingTree.compile forkContext).2) := by
  rw [tallyingCompiled, Option.some_get]

theorem tallyingTree_reached {visited : List Node} {node : Node}
    (h : Reached tallyingTree forkVerdict visited node) :
    (visited = [] ∧ node = losingNode) ∨
      (visited = [losingNode] ∧ node = winningNode) :=
  h.of_pair (fun _ => mem_tallyingTree) (by decide) rfl fun _ hexit => by cases hexit

theorem tallyingTree_tested :
    GivesVerdicts tallyingTree forkVerdict forkContext
      (tallyingCompiled.loadedWith sameTest) := by
  have hhost : (tallyingCompiled.loadedWith sameTest).hosts.get? "ATSame" =
      some sameTest := rfl
  intro visited node hreached
  refine ⟨rfl, ?_⟩
  rcases mem_tallyingTree hreached.mem with rfl | rfl
  · exact Expr.evaluates_host hhost (by decide)
      (.cons (Expr.evaluates_nat (n := 1) (by decide))
        (.cons (Expr.evaluates_nat (n := 2) (by decide)) .nil)) rfl
  · exact Expr.evaluates_host hhost (by decide)
      (.cons (Expr.evaluates_nat (n := 1) (by decide))
        (.cons (Expr.evaluates_nat (n := 1) (by decide)) .nil)) rfl

theorem tallyingTree_totalsFit : TotalsFit tallyingTree forkVerdict := by
  intro visited node hreached
  rcases tallyingTree_reached hreached with ⟨rfl, rfl⟩ | ⟨rfl, rfl⟩ <;> decide

/-- The score of -3 + 5 counts fully, the penalty of 1 - 2 not at all. -/
theorem invoke_tallying :
    ∃ others after, Eval.invoke tallyingCompiled.function []
        (tallyingCompiled.loadedWith sameTest) =
      .ok (.list (.int 1 :: .int 0 :: others)) after := by
  have hgas : ∀ after, Eval.invoke tallyingCompiled.function []
      (tallyingCompiled.loadedWith sameTest) ≠ .error .gasExhausted after :=
    ne_exhausted (by decide +kernel)
  obtain ⟨before, last, others, after, hreached, hends, -, hrun⟩ :=
    invoke_totals_scores tallyingTree_compile tallyingTree_onlyScores rfl
      (fun _ => tallyingTree_isWhole) (by decide)
      (tallyingTree_onlyScores.hasBuiltins_loadedWith tallyingTree_compile _)
      (tallyingTree_onlyScores.isLoaded_loadedWith tallyingTree_compile _)
      tallyingTree_tested tallyingTree_totalsFit hgas
  rcases tallyingTree_reached hreached with ⟨rfl, rfl⟩ | ⟨rfl, rfl⟩
  · exact absurd rfl (hends "b")
  · exact ⟨others, after, hrun⟩

end ResponseTree

end SceneQuiz
