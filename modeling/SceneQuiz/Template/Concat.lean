import SceneQuiz.Template.Fault
import SceneQuiz.Expr.Basic
/-!
The normal form of concatenations.  `sconcat` takes in the arguments of calls
directly inside it, joins neighbouring literal texts and drops empty ones; a
`["%root", ...]` list does the same with lists inside it.  What is left is then
folded to the left so that no call has more arguments than a limit allows.

Calls `castext("...")` with a literal text are replaced on the way by whatever
the caller expands them to.
-/

namespace SceneQuiz

/-- The tag of a list whose items are rendered one after the other. -/
def rootTag : String := "%root"

namespace Concat

/-- Drop empty literal texts and join neighbouring ones. -/
def mergeTexts : List Expr → List Expr
  | [] => []
  | .str text :: rest =>
      if text = "" then mergeTexts rest
      else
        match mergeTexts rest with
        | .str more :: others => .str (text ++ more) :: others
        | others => .str text :: others
  | e :: rest => e :: mergeTexts rest

/-- Functions whose value is a text. -/
def textFunctions : List String := ["sconcat", "simplode", "stack_disp", "string"]

/-- Is the value of the expression always a text? -/
def yieldsText : Expr → Bool
  | .str _ => true
  | .call name _ => name ∈ textFunctions
  | _ => false

end Concat

mutual

/-- What an argument of a concatenation contributes to it. -/
def Expr.concatParts (e : Expr) : List Expr :=
  match e with
  | .call name args =>
      if name = "sconcat" then Expr.concatPartsOfAll args
      else [.call name args]
  | e => [e]
termination_by structural e

def Expr.concatPartsOfAll (items : List Expr) : List Expr :=
  match items with
  | [] => []
  | e :: rest => e.concatParts ++ Expr.concatPartsOfAll rest
termination_by structural items

end

mutual

/-- What an item of a `["%root", ...]` list contributes to it. -/
def Expr.rootParts (e : Expr) : List Expr :=
  match e with
  | .list (.str tag :: rest) =>
      if tag = rootTag then Expr.rootPartsOfAll rest
      else [.list (.str tag :: rest)]
  | e => [e]
termination_by structural e

def Expr.rootPartsOfAll (items : List Expr) : List Expr :=
  match items with
  | [] => []
  | e :: rest => e.rootParts ++ Expr.rootPartsOfAll rest
termination_by structural items

end

namespace Concat

/-- A concatenation in normal form, but for its length. -/
def concatenation (args : List Expr) : Expr :=
  match mergeTexts (Expr.concatPartsOfAll args) with
  | [] => .str ""
  | [only] => if yieldsText only then only else .call "sconcat" [only]
  | parts => .call "sconcat" parts

/-- A list in normal form: one tagged `%root` takes in those inside it. -/
def tagged (items : List Expr) : Expr :=
  match items with
  | .str tag :: rest =>
      if tag = rootTag then
        .list (.str tag :: mergeTexts (Expr.rootPartsOfAll rest))
      else .list items
  | _ => .list items

/-- The normal form of an expression whose parts are in normal form. -/
def settle : Expr → Expr
  | .call name args =>
      if name = "sconcat" then concatenation args else .call name args
  | .list items => tagged items
  | e => e

/-- A call in normal form.  A literal `castext` is expanded; one that cannot be
is reported and stays. -/
def call (expand : String → Except TemplateIssue Expr) (name : String)
    (args : List Expr) : Checked Expr :=
  if name = "castext" then
    match args with
    | [.str source] =>
        match expand source with
        | .ok e => pure (settle e)
        | .error issue => do
            Checked.report issue none
            return .call name args
    | _ => pure (.call name args)
  else pure (settle (.call name args))

end Concat

mutual

/-- Bring every concatenation inside an expression to normal form, but for its
length.  Parts are visited from the last to the first. -/
def Expr.merged (expand : String → Except TemplateIssue Expr) (e : Expr) :
    Checked Expr :=
  match e with
  | .number _ | .str _ | .bool _ | .ident _ => pure e
  | .call name args => do
      let args ← Expr.mergedAll expand args
      Concat.call expand name args
  | .index target indices => do
      let indices ← Expr.mergedAll expand indices
      let target ← target.merged expand
      return .index target indices
  | .list items => do return Concat.tagged (← Expr.mergedAll expand items)
  | .set items => do return .set (← Expr.mergedAll expand items)
  | .group items => do return .group (← Expr.mergedAll expand items)
  | .neg operand => do return .neg (← operand.merged expand)
  | .not operand => do return .not (← operand.merged expand)
  | .quote operand => do return .quote (← operand.merged expand)
  | .factorial operand => do return .factorial (← operand.merged expand)
  | .binary op left right => do
      let right ← right.merged expand
      let left ← left.merged expand
      return .binary op left right
  | .cond branches otherwise => do
      let otherwise ← match otherwise with
        | some body => some <$> body.merged expand
        | none => pure none
      let branches ← Expr.mergedBranches expand branches
      return .cond branches otherwise
  | .forIn var source body => do
      let body ← body.merged expand
      let source ← source.merged expand
      return .forIn var source body
  | .forRange var first step last body => do
      let body ← body.merged expand
      let last ← last.merged expand
      let step ← match step with
        | some step => some <$> step.merged expand
        | none => pure none
      let first ← first.merged expand
      return .forRange var first step last body
termination_by structural e

def Expr.mergedAll (expand : String → Except TemplateIssue Expr)
    (items : List Expr) : Checked (List Expr) :=
  match items with
  | [] => pure []
  | e :: rest => do
      let others ← Expr.mergedAll expand rest
      let e ← e.merged expand
      return e :: others
termination_by structural items

def Expr.mergedBranches (expand : String → Except TemplateIssue Expr)
    (branches : List (Expr × Expr)) : Checked (List (Expr × Expr)) :=
  match branches with
  | [] => pure []
  | (test, body) :: rest => do
      let others ← Expr.mergedBranches expand rest
      let body ← body.merged expand
      let test ← test.merged expand
      return (test, body) :: others
termination_by structural branches

end

namespace Concat

/-- A concatenation of `current` and then the rest.  A call that is full
becomes the first argument of the next. -/
def folded (limit : Nat) (current : List Expr) : List Expr → Expr
  | [] => .call "sconcat" current
  | e :: rest =>
      if current.length < limit then folded limit (current ++ [e]) rest
      else folded limit [.call "sconcat" current, e] rest

/-- A call with no more arguments than the limit, if it is a concatenation. -/
def foldCall (limit : Nat) (name : String) (args : List Expr) : Expr :=
  if name = "sconcat" ∧ limit < args.length then folded limit [] args
  else .call name args

end Concat

mutual

/-- Fold every concatenation that is longer than the limit. -/
def Expr.foldConcats (limit : Nat) (e : Expr) : Expr :=
  match e with
  | .number _ | .str _ | .bool _ | .ident _ => e
  | .call name args =>
      Concat.foldCall limit name (Expr.foldConcatsAll limit args)
  | .index target indices =>
      .index (target.foldConcats limit) (Expr.foldConcatsAll limit indices)
  | .list items => .list (Expr.foldConcatsAll limit items)
  | .set items => .set (Expr.foldConcatsAll limit items)
  | .group items => .group (Expr.foldConcatsAll limit items)
  | .neg operand => .neg (operand.foldConcats limit)
  | .not operand => .not (operand.foldConcats limit)
  | .quote operand => .quote (operand.foldConcats limit)
  | .factorial operand => .factorial (operand.foldConcats limit)
  | .binary op left right =>
      .binary op (left.foldConcats limit) (right.foldConcats limit)
  | .cond branches otherwise =>
      .cond (Expr.foldConcatsBranches limit branches)
        (match otherwise with
          | some body => some (body.foldConcats limit)
          | none => none)
  | .forIn var source body =>
      .forIn var (source.foldConcats limit) (body.foldConcats limit)
  | .forRange var first step last body =>
      .forRange var (first.foldConcats limit)
        (match step with
          | some step => some (step.foldConcats limit)
          | none => none)
        (last.foldConcats limit) (body.foldConcats limit)
termination_by structural e

def Expr.foldConcatsAll (limit : Nat) (items : List Expr) : List Expr :=
  match items with
  | [] => []
  | e :: rest => e.foldConcats limit :: Expr.foldConcatsAll limit rest
termination_by structural items

def Expr.foldConcatsBranches (limit : Nat) (branches : List (Expr × Expr)) :
    List (Expr × Expr) :=
  match branches with
  | [] => []
  | (test, body) :: rest =>
      (test.foldConcats limit, body.foldConcats limit) ::
        Expr.foldConcatsBranches limit rest
termination_by structural branches

end

/-- The normal form of an expression: concatenations merged, then folded. -/
def Expr.normalize (expand : String → Except TemplateIssue Expr) (limit : Nat)
    (e : Expr) : Except (List TemplateFault) Expr :=
  (e.merged expand).result.map fun merged => merged.foldConcats limit

end SceneQuiz
