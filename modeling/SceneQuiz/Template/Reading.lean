import SceneQuiz.Parse.Fragment
import SceneQuiz.Template.Block
import SceneQuiz.Template.Fault
import SceneQuiz.Text.Basic
/-!
From the nodes of a template to blocks.  Every expression is read once, every
parameter is checked, and all faults are reported, in source order.
-/

namespace SceneQuiz

namespace Reading

/-- Read an expression; its first fault is reported. -/
def expr (source : String) (position : Position) : Checked (Option Expr) :=
  match Expr.parse source with
  | .ok e => pure (some e)
  | .error [] => pure none
  | .error (issue :: _) => do
      Checked.report (.expression issue.fault source) position
      return none

/-- Read pairs whose names have to be variables. -/
def pairs (block : String) (position : Position) :
    List Attribute → Checked (List (String × Expr))
  | [] => pure []
  | pair :: rest => do
      if isName pair.name then
        let value ← expr pair.value position
        let others ← pairs block position rest
        return (value.toList.map fun e => (pair.name, e)) ++ others
      else
        Checked.report (.invalidVariable block pair.name) position
        pairs block position rest

/-- What a flag says about `simp`: a flag without a value switches it on. -/
def simpOf? (flag : Flag) : Option Bool :=
  if flag.name = "simp" then
    match flag.value with
    | none => some true
    | some (.bool value) => some value
    | some _ => none
  else none

/-- The value that flags give to `simp`; the last one counts, and every other
flag is a fault. -/
def simp (position : Position) (sofar : Option Bool) :
    List Flag → Checked (Option Bool)
  | [] => pure sofar
  | flag :: rest =>
      match simpOf? flag with
      | some value => simp position (some value) rest
      | none => do
          Checked.report (.invalidFlag flag.name) position
          simp position sofar rest

/-- The name that an assignment assigns. -/
def keyOf? : Expr → Option String
  | .binary .assign left _ => left.asIdent?
  | _ => none

/-- Read an injection, which holds exactly one statement. -/
def injection (mode : InjectMode) (source : String) (site : Site) :
    Checked Block :=
  match Fragment.parse source with
  | .error [] => pure (.text "")
  | .error (issue :: _) => do
      Checked.report (.expression issue.fault source) site.position
      return .text ""
  | .ok [statement] => do
      let value ← simp site.position none statement.flags
      return .inject ⟨mode, statement.expr, keyOf? statement.expr, value,
        site.mathMode⟩
  | .ok statements => do
      Checked.report (.statementCount statements.length) site.position
      return .text ""

/-- Blocks one after the other; empty texts are left out. -/
def container (blocks : List Block) : Block :=
  .container (blocks.filter fun block => match block with
    | .text text => text != ""
    | _ => true)

/-- Parameters a named block takes. -/
def allowedParams (name : String) : List String :=
  if name = "indexing" then ["style", "start"]
  else if name = "reveal" then ["input", "value"]
  else if name = "lang" then ["code"]
  else []

/-- Report parameters that a block does not take. -/
def checkParams (name : String) (position : Position) :
    List Attribute → Checked Unit
  | [] => pure ()
  | param :: rest => do
      if param.name ∉ allowedParams name then
        Checked.report (.unknownParameter name param.name) position
      checkParams name position rest

/-- The first value given for a parameter. -/
def param? (params : List Attribute) (name : String) : Option String :=
  (params.find? fun param => param.name == name).map Attribute.value

/-- The value of a parameter that has to be given. -/
def neededParam (block : String) (params : List Attribute) (name : String)
    (position : Position) : Checked (Option String) :=
  match param? params name with
  | some value => pure (some value)
  | none => do
      Checked.report (.missingParameter block name) position
      return none

/-- The numbering style of a pattern. -/
def style (pattern : String) (position : Position) : Checked IndexStyle :=
  match IndexStyle.ofPattern? pattern with
  | some style => pure style
  | none => do
      Checked.report (.invalidIndexStyle pattern) position
      return .plain

/-- `indexing`: numbers in style `1` from 1 unless told otherwise. -/
def indexing (params : List Attribute) (position : Position)
    (body : Checked Block) : Checked Block := do
  let style ← style ((param? params "style").getD "1") position
  let start ← match param? params "start" with
    | some source => expr source position
    | none => pure none
  return .indexing style (start.getD (.int 1)) (← body)

/-- `reveal`: shown once an input has a value. -/
def reveal (inputs : List String) (params : List Attribute)
    (position : Position) (body : Checked Block) : Checked Block := do
  let input ← neededParam "reveal" params "input" position
  if let some name := input then
    if name ∉ inputs then
      Checked.report (.unknownRevealInput name) position
  let value ← match ← neededParam "reveal" params "value" position with
    | some source => expr source position
    | none => pure none
  return .reveal (input.getD "") (value.getD (.bool false)) (← body)

/-- Language codes between commas. -/
def languageCodes (codes : String) : List String :=
  ((Text.splitAt ',' codes).map Text.trimBlank).filter (· != "")

/-- `lang`: shown in some languages only. -/
def lang (params : List Attribute) (position : Position)
    (body : Checked Block) : Checked Block := do
  let codes ← neededParam "lang" params "code" position
  return .lang ((codes.map languageCodes).getD []) (← body)

/-- A block known by name. -/
def named (inputs : List String) (insideIndexing : Bool) (name : String)
    (params : List Attribute) (position : Position) (body : Checked Block) :
    Checked Block := do
  if name ∉ Block.knownNames then
    Checked.report (.unknownBlock name) position
    return .text ""
  else
    checkParams name position params
    if name = "indexing" then indexing params position body
    else if name = "index" then
      if !insideIndexing then
        Checked.report .indexOutsideIndexing position
      return .index
    else if name = "reveal" then reveal inputs params position body
    else lang params position body

end Reading

mutual

/-- The block of a node, for a template that knows some inputs. -/
def Node.read (inputs : List String) (node : Node) (insideIndexing : Bool) :
    Checked Block :=
  match node with
  | .root _ children =>
      Reading.container <$> Node.readAll inputs children insideIndexing
  | .raw _ text => pure (.text text)
  | .escape _ value => pure (.text value)
  | .comment _ _ => pure (.text "")
  | .inject site mode expression => Reading.injection mode expression site
  | .define site bindings => do
      return .define (← Reading.pairs "define" site.position bindings)
  | .cond site branches => do
      let arms ← Node.readBranches inputs branches insideIndexing true none
      if branches.isEmpty then
        Checked.report (.missingParameter "if" "test") site.position
      return .cond arms.1 arms.2
  | .foreach site iterators children => do
      if iterators.isEmpty then
        Checked.report (.missingParameter "foreach" "iterator") site.position
      let iterators ← Reading.pairs "foreach" site.position iterators
      let body ← Node.readAll inputs children insideIndexing
      return .foreach iterators (Reading.container body)
  | .named site name params children =>
      Reading.named inputs insideIndexing name params site.position
        (Reading.container <$>
          Node.readAll inputs children (insideIndexing || name == "indexing"))
termination_by structural node

/-- The blocks of several nodes. -/
def Node.readAll (inputs : List String) (nodes : List Node)
    (insideIndexing : Bool) : Checked (List Block) :=
  match nodes with
  | [] => pure []
  | node :: rest => do
      let block ← node.read inputs insideIndexing
      let others ← Node.readAll inputs rest insideIndexing
      return block :: others
termination_by structural nodes

/-- The arms of a conditional.  An `else` has to come last and not alone;
`otherwise` is the one met so far. -/
def Node.readBranches (inputs : List String) (branches : List (Branch Node))
    (insideIndexing isFirst : Bool) (otherwise : Option Block) :
    Checked (List (Expr × Block) × Option Block) :=
  match branches with
  | [] => pure ([], otherwise)
  | ⟨some condition, children, position⟩ :: rest => do
      if otherwise.isSome then Checked.report .misplacedElse position
      let test ← Reading.expr condition position
      let body ← Node.readAll inputs children insideIndexing
      let others ← Node.readBranches inputs rest insideIndexing false otherwise
      return ((test.toList.map fun e => (e, Reading.container body)) ++ others.1,
        others.2)
  | ⟨none, children, position⟩ :: rest => do
      if isFirst || otherwise.isSome then
        Checked.report .misplacedElse position
      let body ← Node.readAll inputs children insideIndexing
      Node.readBranches inputs rest insideIndexing false
        (some (Reading.container body))
termination_by structural branches

end

/-- The block a template stands for, or all its faults. -/
def Node.toBlock (top : Node) (inputs : List String) :
    Except (List TemplateFault) Block :=
  (top.read inputs false).result

end SceneQuiz
