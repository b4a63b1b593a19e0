import SceneQuiz.Template.Block
import SceneQuiz.Template.Concat
/-!
The code of a block: one expression whose value is the text of the block, or,
for a block that is not flat, a list that is rendered after evaluation.
-/

namespace SceneQuiz

namespace Emit

/-- Locals that start with the values their names have outside. -/
def keepAll (names : List String) : List Expr := names.map Expr.keep

/-- Code with locals that keep their outer values at first; without any, the
code alone. -/
def localized (names : List String) (body : Expr) : Expr :=
  if names.isEmpty then body else .block (keepAll names) [body]

/-- An injected value as text. -/
def shown (injection : Injection) (e : Expr) : Expr :=
  match injection.mode with
  | .latex =>
      .call "stack_disp" [e, .str (if injection.mathMode then "" else "i")]
  | .value => .call "string" [e]

/-- An injection.  A `simp` flag holds while the expression is evaluated. -/
def injection (injection : Injection) : Expr :=
  let value := match injection.key with
    | some key => .group [injection.expr, shown injection (.ident key)]
    | none => shown injection injection.expr
  match injection.simp with
  | none => value
  | some flag =>
      .block [.assign "%_s" (.ident "simp"), .ident "%_r"]
        [.assign "simp" (.bool flag), .assign "%_r" value,
          .assign "simp" (.ident "%_s"), .ident "%_r"]

/-- Assignments that show nothing. -/
def definitions (pairs : List (String × Expr)) : Expr :=
  if pairs.isEmpty then .str ""
  else .group ((pairs.map fun pair => .assign pair.1 pair.2) ++ [.str ""])

/-- Names defined directly in a container, each once, in order. -/
def definedNames (blocks : List Block) : List String :=
  (blocks.flatMap fun block => match block with
    | .define pairs => pairs.map Prod.fst
    | _ => []).foldl
    (fun names name => if name ∈ names then names else names ++ [name]) []

/-- The parts of a container one after the other.  What it defines stays inside
it. -/
def container (blocks : List Block) (isFlat : Bool) (parts : List Expr) : Expr :=
  localized (definedNames blocks)
    (if isFlat then .call "sconcat" parts else .list (.str rootTag :: parts))

/-- A conditional; without an `else` it shows nothing. -/
def conditional (branches : List (Expr × Expr)) (otherwise : Expr) : Expr :=
  if branches.isEmpty then otherwise else .cond branches (some otherwise)

/-- Helper variables of the `n`-th loop. -/
def loopStem (n : Nat) : String := "%_fe" ++ toString n

def loopList (n i : Nat) : String := loopStem n ++ "_l" ++ toString i

def loopIndex (n : Nat) : String := loopStem n ++ "_i"

def loopOutput (n : Nat) : String := loopStem n ++ "_o"

/-- The `n`-th loop: its iterators run in step, as far as the shortest of them,
and what the body gives each time is collected. -/
def loop (n : Nat) (iterators : List (String × Expr)) (isFlat : Bool)
    (body : Expr) : Expr :=
  let output := Expr.ident (loopOutput n)
  let list (i : Nat) : Expr := .ident (loopList n (i + 1))
  let numbers := List.range iterators.length
  let sources := iterators.mapIdx fun i iterator =>
    Expr.assign (loopList n (i + 1)) iterator.2
  let locals := sources ++
    [.assign (loopOutput n) (.list []), .ident (loopIndex n)] ++
    iterators.map fun iterator => .ident iterator.1
  let listed := numbers.map fun i =>
    Expr.assign (loopList n (i + 1))
      (.ifThen (.call "setp" [list i]) (.call "listify" [list i]) (some (list i)))
  let count := Expr.call "min" (numbers.map fun i => .call "length" [list i])
  let members := iterators.mapIdx fun i iterator =>
    Expr.assign iterator.1 (.index (list i) [.ident (loopIndex n)])
  let collect := Expr.assign (loopOutput n) (.call "endcons" [body, output])
  let result := if isFlat then Expr.call "simplode" [output]
    else .call "append" [.list [.str rootTag], output]
  .block locals
    (listed ++
      [.forRange (loopIndex n) (.int 1) none count (.group (members ++ [collect])),
        result])

end Emit

mutual

/-- The code of a block; `loops` loops come before it in the template. -/
def Block.codeAfter (loops : Nat) (block : Block) : Expr :=
  match block with
  | .container items =>
      Emit.container items (Block.allFlat items) (Block.codeOfAll loops items)
  | .text content => .str content
  | .inject injection => Emit.injection injection
  | .define pairs => Emit.definitions pairs
  | .cond branches otherwise =>
      Emit.conditional (Block.codeOfBranches loops branches)
        (match otherwise with
          | some body =>
              body.codeAfter (loops + Block.loopCountOfBodies branches)
          | none => .str "")
  | .foreach iterators body =>
      Emit.loop (loops + 1) iterators body.isFlat (body.codeAfter (loops + 1))
  | .indexing style start body =>
      .list [.str "indexing", .str style.pattern, start, body.codeAfter loops]
  | .index => .list [.str "index"]
  | .reveal input value body =>
      .list [.str "reveal", .str input, value, body.codeAfter loops]
  | .lang codes body =>
      .list [.str "lang", .str (",".intercalate codes), body.codeAfter loops]
termination_by structural block

def Block.codeOfAll (loops : Nat) (blocks : List Block) : List Expr :=
  match blocks with
  | [] => []
  | block :: rest =>
      block.codeAfter loops :: Block.codeOfAll (loops + block.loopCount) rest
termination_by structural blocks

def Block.codeOfBranches (loops : Nat) (branches : List (Expr × Block)) :
    List (Expr × Expr) :=
  match branches with
  | [] => []
  | (test, body) :: rest =>
      (test, body.codeAfter loops) ::
        Block.codeOfBranches (loops + body.loopCount) rest
termination_by structural branches

end

/-- The code of a whole template. -/
def Block.code (block : Block) : Expr := block.codeAfter 0

end SceneQuiz
