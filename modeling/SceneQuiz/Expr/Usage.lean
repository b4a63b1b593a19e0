import SceneQuiz.Expr.Basic
import SceneQuiz.NameSet
/-!
Which names code reads, writes and calls.  Names bound by `block`, `lambda`,
function parameters or loops are not reported.  The usage of a sequence is the
union of the usages of its parts.
-/

namespace SceneQuiz

/-- Names read, written and called by some code. -/
structure Usage where
  read : NameSet
  write : NameSet
  calls : NameSet
deriving DecidableEq

namespace Usage

/-- The usage of code that uses nothing. -/
def empty : Usage := ⟨∅, ∅, ∅⟩

instance : Inhabited Usage := ⟨empty⟩

/-- Everything that at least one of two usages reports. -/
def union (a b : Usage) : Usage :=
  ⟨a.read ∪ b.read, a.write ∪ b.write, a.calls ∪ b.calls⟩

instance : Union Usage := ⟨union⟩

/-- Names that are read or written. -/
def references (usage : Usage) : NameSet := usage.read ∪ usage.write

def isEmpty (usage : Usage) : Bool :=
  usage.read.isEmpty && usage.write.isEmpty && usage.calls.isEmpty

/-- A read of a name that is not bound here. -/
def ofRead (bound : List String) (name : String) : Usage :=
  if name ∈ bound then empty else ⟨.singleton name, ∅, ∅⟩

/-- A write to a name that is not bound here. -/
def ofWrite (bound : List String) (name : String) : Usage :=
  if name ∈ bound then empty else ⟨∅, .singleton name, ∅⟩

/-- A call of a name that is not bound here. -/
def ofCall (bound : List String) (name : String) : Usage :=
  if name ∈ bound then empty else ⟨∅, ∅, .singleton name⟩

/-- A `lambda` counts as a call whatever is bound; a `block` never does. -/
def ofBinder (name : String) : Usage :=
  if name = "lambda" then ⟨∅, ∅, .singleton name⟩ else empty

end Usage

/-- Names that stand for switches of the whole system. -/
def globalFlags : List String := ["simp"]

/-- A switch of the whole system, which every layer may set and none owns. -/
def isGlobalFlag (name : String) : Bool := name ∈ globalFlags

namespace Expr

/-- The name of a formal parameter: `x`, or `[x]` for the remaining ones. -/
def parameterName? : Expr → Option String
  | .ident name => some name
  | .list [item] => item.asIdent?
  | _ => none

/-- The name a declaration of a `block` or `lambda` binds. -/
def declaredName? : Expr → Option String
  | .binary .assign left _ => left.asIdent?
  | declaration => declaration.parameterName?

end Expr

/-- How an expression stands in the code around it. -/
inductive Role where
  | value
  /-- On the left of an assignment. -/
  | target
deriving DecidableEq, Repr

mutual

/-- The usage of an expression in a role, inside binders of the names `bound`. -/
def Expr.usageAs (e : Expr) (role : Role) (bound : List String) : Usage :=
  match e with
  | .number _ | .str _ | .bool _ => .empty
  | .ident name =>
      match role with
      | .value => .ofRead bound name
      | .target => .ofWrite bound name
  | .call name args =>
      if name = "block" ∨ name = "lambda" then
        match args with
        | [] => .ofCall bound name
        | .list declarations :: body =>
            Expr.usageOfDeclarations declarations bound ∪
              Usage.ofBinder name ∪
              Expr.usageOfAll body .value
                (declarations.filterMap Expr.declaredName? ++ bound)
        | body => Usage.ofBinder name ∪ Expr.usageOfAll body .value bound
      else .ofCall bound name ∪ Expr.usageOfAll args .value bound
  | .index target indices =>
      Expr.usageOfAll indices .value bound ∪
        target.usageAs
          (if target.asIdent?.isSome then role else .value) bound
  | .list items => Expr.usageOfAll items role bound
  | .set items | .group items => Expr.usageOfAll items .value bound
  | .quote _ => .empty
  | .neg operand | .not operand | .factorial operand =>
      operand.usageAs .value bound
  | .binary op left right =>
      match op with
      | .assign => right.usageAs .value bound ∪ left.usageAs .target bound
      | .define =>
          match left with
          | .call name params =>
              .ofWrite bound name ∪
                right.usageAs .value
                  (params.filterMap Expr.parameterName? ++ bound)
          | _ => left.usageAs .target bound ∪ right.usageAs .value bound
      | _ => left.usageAs .value bound ∪ right.usageAs .value bound
  | .cond branches otherwise =>
      Expr.usageOfBranches branches bound ∪
        (match otherwise with
          | some body => body.usageAs .value bound
          | none => .empty)
  | .forIn var source body =>
      source.usageAs .value bound ∪ body.usageAs .value (var :: bound)
  | .forRange var first step last body =>
      first.usageAs .value bound ∪
        (match step with
          | some step => step.usageAs .value bound
          | none => .empty) ∪
        last.usageAs .value bound ∪ body.usageAs .value (var :: bound)
termination_by structural e

/-- The usage of several expressions in one role. -/
def Expr.usageOfAll (items : List Expr) (role : Role) (bound : List String) :
    Usage :=
  match items with
  | [] => .empty
  | e :: rest => e.usageAs role bound ∪ Expr.usageOfAll rest role bound
termination_by structural items

/-- The usage of declarations: an initial value is evaluated outside. -/
def Expr.usageOfDeclarations (items : List Expr) (bound : List String) : Usage :=
  match items with
  | [] => .empty
  | .binary .assign _ right :: rest =>
      right.usageAs .value bound ∪ Expr.usageOfDeclarations rest bound
  | _ :: rest => Expr.usageOfDeclarations rest bound
termination_by structural items

/-- The usage of the branches of a conditional. -/
def Expr.usageOfBranches (branches : List (Expr × Expr)) (bound : List String) :
    Usage :=
  match branches with
  | [] => .empty
  | (test, body) :: rest =>
      test.usageAs .value bound ∪ body.usageAs .value bound ∪
        Expr.usageOfBranches rest bound
termination_by structural branches

end

/-- The usage of an expression. -/
def Expr.usage (e : Expr) : Usage := e.usageAs .value []

/-- The usage of a statement, values of its flags included. -/
def Statement.usage (statement : Statement) : Usage :=
  statement.flags.foldl
    (fun usage flag => match flag.value with
      | some value => usage ∪ value.usage
      | none => usage)
    statement.expr.usage

/-- The usage of a sequence of statements. -/
def Fragment.usage (fragment : Fragment) : Usage :=
  fragment.foldl (fun usage statement => usage ∪ statement.usage) .empty

end SceneQuiz
