import SceneQuiz.Proofs.ResponseTree.KeptBindings
/-!
From what the author of a tree wrote to its plan.  A property of all expressions
and statements of the author, and of all compiled feedback, is one of the whole
plan if it extends to the few forms that planning puts around them: the change
of a score, the call of a test and the name of a raw input.
-/

namespace SceneQuiz

/-- The functions that run tests have names of their own. -/
theorem AnswerTest.functionName_ne (codename : String) {name : String}
    (h : name.toList.head? ≠ some 'A') : functionName codename ≠ name := by
  rintro rfl
  exact h (by simp [functionName])

namespace ResponseTree

/-- A property that extends to the forms that planning makes. -/
structure PlanProperty.Extends (good : Expr → Prop) : Prop where
  str : ∀ text, good (.str text)
  ident : ∀ name, good (.ident name)
  noTest : good (.list [])
  changed : ∀ op ∈ [BinOp.add, .sub], ∀ {left right}, good left → good right →
    good (.binary op left right)
  invoked : ∀ codename {args}, (∀ arg ∈ args, good arg) →
    good (.call (AnswerTest.functionName codename) args)

variable {tree : ResponseTree} {ctx : TreeContext} {good : Expr → Prop}

theorem PlanProperty.Extends.changedScore (h : PlanProperty.Extends good) (change : ScoreChange)
    (accumulator : String) {value : Expr} (hvalue : good value) :
    good (changedScore change accumulator value) := by
  cases change with
  | set => exact hvalue
  | add => exact h.changed .add (by simp) (h.ident accumulator) hvalue
  | subtract => exact h.changed .sub (by simp) (h.ident accumulator) hvalue

theorem PlanProperty.Extends.invocation (h : PlanProperty.Extends good) (test : AnswerTest)
    {call : TestCall} (hstudent : good call.studentAnswer)
    (hteacher : ∀ e ∈ call.teacherAnswer, good e) (hoptions : ∀ e ∈ call.options, good e) :
    good (test.invocation call) := by
  have hseen : good (test.seenAnswer call) := by
    unfold AnswerTest.seenAnswer
    split
    · split <;> exact h.ident _
    · exact hstudent
  have hcompared := getD_of_forall hteacher (h.str "")
  apply h.invoked
  simp only [List.forall_mem_append, List.forall_mem_cons]
  exact ⟨⟨hseen, hcompared, List.forall_mem_nil _⟩,
    fun e he => hoptions e (Option.mem_toList.mp he)⟩

/-- What the author wrote is what planning offers. -/
theorem PlanProperty.offered_throughout (hgood : PlanProperty.Extends good)
    (hexpressions : ∀ e ∈ tree.nodeExpressions, good e)
    (hstatements : ∀ e ∈ tree.statements, good e)
    (hfeedbacks : ∀ feedback ∈ tree.feedbacks, ∀ compiled,
      feedback.compile ctx.templates = .ok compiled → good compiled.expr) :
    (PlanProperty.throughout good).Offered tree ctx where
  expressions _ hsource e he := hexpressions e (mem_nodeExpressions hsource he)
  fragments _ hsource _ hcode _ hmem := hstatements _ (mem_statements hsource hcode hmem)
  feedbacks := hfeedbacks
  noTest := hgood.noTest
  changed change accumulator _ _ hvalue := hgood.changedScore change accumulator hvalue
  invoked entry _ _ hstudent hteacher hoptions :=
    hgood.invocation entry.2 hstudent hteacher hoptions

/-- Compiled feedback comes from the author's templates, inlined ones included. -/
theorem mem_authored_feedback {feedback : Template} (hfeedback : feedback ∈ tree.feedbacks)
    {block : Block} (hblock : block ∈ ctx.templates.blocksWithin ctx.options.inlineDepth feedback)
    {e : Expr} (he : e ∈ block.authored) : e ∈ tree.authored ctx :=
  List.mem_append_right _ (List.mem_flatMap.mpr
    ⟨feedback, hfeedback, List.mem_flatMap.mpr ⟨block, hblock, he⟩⟩)

theorem mem_authored_expression {e : Expr} (he : e ∈ tree.nodeExpressions) :
    e ∈ tree.authored ctx :=
  List.mem_append_left _ (List.mem_append_left _ he)

theorem mem_authored_statement {e : Expr} (he : e ∈ tree.statements) : e ∈ tree.authored ctx :=
  List.mem_append_left _ (List.mem_append_right _ he)

end ResponseTree

end SceneQuiz
