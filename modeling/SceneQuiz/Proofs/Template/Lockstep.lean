import SceneQuiz.Proofs.Template.Concatenation
import SceneQuiz.Proofs.Template.LoopStage
/-!
Loops over several sources.  The rounds of a loop are runs of its body one after
the other, each in a scope with one member of every source: what happens on the
stage of the loop is followed round by round, and when the stage is cleared its
helper variables and iterators are what they were.
-/

namespace SceneQuiz

namespace Eval

/-- The texts that a body gives for one row after the other, each time in a scope
where the names have the values of the row. -/
def inTurn (body : Eval Value) (names : List String) : List (List Value) → Eval String
  | [] => pure ""
  | row :: rows => do
      let value ← inScope (names.zip row) body
      let text ← inTurn body names rows
      return value.displayText ++ text

variable {body : Eval Value} {names : List String} {row : List Value} {rows : List (List Value)}
  {before after : Machine}

/-- How the first row goes, and then the others. -/
theorem inTurn_cons {outcome : Except EvalError String}
    (h : inTurn body names (row :: rows) before = lift outcome after) :
    (∃ value last rest, body (before.under (.ofList (names.zip row))) = .ok value last ∧
      inTurn body names rows last.closed = lift rest after ∧
        outcome = rest.map (value.displayText ++ ·)) ∨
    ∃ error last, body (before.under (.ofList (names.zip row))) = .error error last ∧
      after = last.closed ∧ outcome = .error error := by
  obtain ⟨first, last, hfirst⟩ := exists_eq_lift (body (before.under (.ofList (names.zip row))))
  have hscope : inScope (names.zip row) body before = lift first last.closed := by
    apply inScope_eq
    rw [Environment.push_defineAll]
    exact hfirst
  rcases bind_cases h with ⟨value, middle, hvalue, hrest⟩ | ⟨error, herror, rfl⟩
  · obtain ⟨rfl, rfl⟩ := lift_injective (hscope.symm.trans (hvalue.trans (lift_ok _ _).symm))
    rcases bind_cases hrest with ⟨text, final, htext, hend⟩ | ⟨error, herror, rfl⟩
    · obtain ⟨rfl, rfl⟩ := lift_injective ((lift_ok _ _).trans hend)
      exact .inl ⟨value, last, .ok text, hfirst, htext, rfl⟩
    · exact .inl ⟨value, last, .error error, hfirst, herror, rfl⟩
  · obtain ⟨rfl, rfl⟩ := lift_injective (hscope.symm.trans (herror.trans (lift_error _ _).symm))
    exact .inr ⟨error, last, hfirst, rfl, rfl⟩

/-- What the rows assign of their names is gone after them. -/
theorem Keeps.inTurn {policy : Policy} {written : Set String} (h : Keeps.Any policy written body)
    (hrows : ∀ row ∈ rows, row.length = names.length) :
    Keeps.Any policy (written \ {name | name ∈ names}) (inTurn body names rows) := by
  induction rows with
  | nil => exact .value trivial
  | cons row rest ih =>
      rw [List.forall_mem_cons] at hrows
      have hnames : (names.zip row).map Prod.fst = names := List.map_fst_zip hrows.1.ge
      have hround : Keeps.Any policy (written \ {name | name ∈ names})
          (inScope (names.zip row) body) := by
        apply h.within
        intro name hname
        rw [hnames]
        by_cases hmem : name ∈ names
        · exact .inr hmem
        · exact .inl ⟨hname, hmem⟩
      exact hround.bind fun _ _ => (ih hrows.2).bind fun _ _ => .value trivial

end Eval

/-- Assignments bind no name in the innermost scope, and they unbind none. -/
theorem Environment.Changes.contains_eq {written : Set String} {env after : Environment}
    {scope rest : Scope} {name : String} (h : (env.under scope).Changes written after)
    (hrest : (after.column name).head? = some (rest.get? name)) :
    rest.contains name = scope.contains name := by
  have hcolumn := (h name).1
  rw [column_under] at hcolumn
  rw [NameMap.contains, NameMap.contains]
  cases hscope : scope.get? name with
  | some value =>
      rw [hscope] at hcolumn
      obtain ⟨other, hother⟩ := hcolumn.of_bound
      rw [hother] at hrest
      rw [← Option.some.inj hrest]
      rfl
  | none =>
      rw [hscope] at hcolumn
      have houter : env.column name ≠ [] := List.ne_nil_of_length_pos (by simp)
      obtain ⟨other, hother, -⟩ := hcolumn.of_free houter
      rw [hother] at hrest
      rw [← Option.some.inj hrest]

namespace Emit

open SceneQuiz.Expr Eval

/-- A loop for as many lists as it has iterators, with a body that does not know
its helper variables. -/
structure Iterates (n : Nat) (iterators : List (String × Expr)) (body : Expr)
    (lists : List (List Value)) : Prop where
  length : iterators.length = lists.length
  named : ∀ iterator ∈ iterators, isHidden iterator.1 = false
  tidy : body.Obeys .tidy visible
  omits : body.Omits (loopHelpers n lists.length)

variable {n listed : Nat} {iterators : List (String × Expr)} {body : Expr}
  {lists : List (List Value)} {collected : List Value} {scope inner : Scope}
  {before last after : Machine} {fuel : Nat}

/-- The body leaves the functions alone. -/
theorem bare_closed {outcome : Except EvalError Value} (hbare : before.Bare)
    (hbody : body.Obeys .tidy visible)
    (hrun : body.evalWithin fuel (before.under scope) = lift outcome last) : last.closed.Bare := by
  have hinside : (before.under scope).Bare := ⟨hbare.builtins, hbare.functions⟩
  have hkept := ((Keeps.evalWithin fuel (Set.Subset.refl _) hbody).ends
    (Policy.governs_tidy_iff.mpr hinside) hrun).1
  obtain ⟨hbuiltins, hfunctions⟩ := Policy.governs_tidy_iff.mp hkept.governs
  exact ⟨hbuiltins, hfunctions⟩

section Members

variable {members : List (String × Value)}

theorem Iterates.not_mem (h : Iterates n iterators body lists) {name : String}
    (hname : name ∈ loopHelpers n lists.length) : name ∉ iterators.map Prod.fst :=
  (isHelper_of_mem hname).not_mem (List.forall_mem_map.mpr h.named)

theorem contains_members (hmembers : members.map Prod.fst = iterators.map Prod.fst)
    (name : String) : (NameMap.ofList members).contains name = true ↔
      name ∈ iterators.map Prod.fst :=
  NameMap.contains_ofList.trans (by rw [hmembers])

/-- The members of a round are no helper variables. -/
theorem Iterates.get?_helper (h : Iterates n iterators body lists)
    (hmembers : members.map Prod.fst = iterators.map Prod.fst) {name : String}
    (hname : name ∈ loopHelpers n lists.length) (scope : Scope) :
    (scope.insertAll members).get? name = scope.get? name := by
  have hfree : (NameMap.ofList members).get? name = none := by
    rw [← Option.not_isSome_iff_eq_none]
    exact fun hsome => h.not_mem hname ((contains_members hmembers name).mp hsome)
  rw [NameMap.get?_insertAll, hfree]
  rfl

/-- Beside the helper variables the stage has the members of the round. -/
theorem Staged.get?_member (h : Staged n (iterators.map Prod.fst) lists listed collected scope)
    (hmembers : members.map Prod.fst = iterators.map Prod.fst) {name : String}
    (hname : name ∉ loopHelpers n lists.length) :
    (scope.insertAll members).get? name = (NameMap.ofList members).get? name := by
  rw [NameMap.get?_insertAll]
  by_cases hmem : name ∈ iterators.map Prod.fst
  · obtain ⟨value, hvalue⟩ :=
      Option.isSome_iff_exists.mp ((contains_members hmembers name).mpr hmem)
    rw [hvalue]
    rfl
  · rw [h.others name hname hmem, Option.or_none]

/-- A stage that binds the same names and has the same helper variables is as far
as the other. -/
theorem Staged.changed {rest : Scope}
    (h : Staged n (iterators.map Prod.fst) lists listed collected scope)
    (hloop : Iterates n iterators body lists)
    (hmembers : members.map Prod.fst = iterators.map Prod.fst)
    (hhelpers : ∀ name ∈ loopHelpers n lists.length, rest.get? name = scope.get? name)
    (hothers : ∀ name, name ∉ loopHelpers n lists.length →
      rest.contains name = (NameMap.ofList members).contains name) :
    Staged n (iterators.map Prod.fst) lists listed collected rest where
  sources i list hlist := by
    rw [hhelpers _ (loopList_mem_helpers (List.getElem?_eq_some_iff.mp hlist).1)]
    exact h.sources i list hlist
  output := by
    rw [hhelpers _ (by simp [loopHelpers])]
    exact h.output
  iterators name hname := by
    rw [hothers name fun hhelper => hloop.not_mem hhelper hname]
    exact (contains_members hmembers name).mpr hname
  others name hhelper hname := by
    rw [← Option.not_isSome_iff_eq_none]
    exact fun hsome => hname
      ((contains_members hmembers name).mp ((hothers name hhelper).symm.trans hsome))

/-- On the stage the body runs as in a scope with the members of the round, and
it changes the iterators only. -/
theorem Staged.exists_body {outcome : Except EvalError Value} (number : Value)
    (h : Staged n (iterators.map Prod.fst) lists listed collected scope)
    (hloop : Iterates n iterators body lists)
    (hmembers : members.map Prod.fst = iterators.map Prod.fst) (hbare : before.Bare)
    (hrun : body.evalWithin fuel (before.under (.ofList members)) = lift outcome last)
    (hgas : outcome ≠ .error .gasExhausted) :
    ∃ rest : Scope, Staged n (iterators.map Prod.fst) lists listed collected rest ∧
      body.LeadsTo ((before.under (scope.insertAll members)).under (roundScope n number)) outcome
        ((last.closed.under rest).under (roundScope n number)) := by
  have hinner : ∀ name, name ∉ {name | name ∈ loopHelpers n lists.length} →
      (roundScope n number).get? name = none :=
    fun name hname => get?_roundScope_of_ne number fun heq => hname (by simp [heq, loopHelpers])
  have hinside : (before.under (.ofList members)).Bare := ⟨hbare.builtins, hbare.functions⟩
  have hfences : before.Fences {name | name ∈ loopHelpers n lists.length} := by
    intro name function hfunction
    rw [hbare.functions name] at hfunction
    cases hfunction
  obtain ⟨rest, hleads, hhelpers, hothers⟩ := evalWithin_splitting hinner
    (fun name hname => h.get?_member hmembers hname) (hloop.omits.fencedFrom ∅) hfences hrun hgas
  have hchanges := ((Keeps.evalWithin fuel (Set.Subset.refl _) hloop.tidy).ends
    (Policy.governs_tidy_iff.mpr hinside) hrun).1.changes
  refine ⟨rest, h.changed hloop hmembers (fun name hname => ?_) fun name hname => ?_, hleads⟩
  · exact (hhelpers name hname).trans (hloop.get?_helper hmembers hname scope)
  · exact hchanges.contains_eq (hothers name hname)

end Members

/-- What the body gives is collected at the end of the output. -/
theorem Staged.leadsTo_collect {start : Machine} {value : Value} (number : Value)
    (h : Staged n (iterators.map Prod.fst) lists listed collected scope)
    (hplain : before.HasBuiltins)
    (hbody : body.LeadsTo start (.ok value)
      ((before.under scope).under (roundScope n number))) :
    (loopCollect n body).LeadsTo start (.ok (.list (collected ++ [value])))
      ((before.under (scope.insert (loopOutput n) (.list (collected ++ [value])))).under
        (roundScope n number)) := by
  have hfree := get?_roundScope_of_ne number (loopIndex_ne_loopOutput n).symm
  have hbound : scope.contains (loopOutput n) = true := by simp [NameMap.contains, h.output]
  have hfound : ((before.under scope).under (roundScope n number)).env.get? (loopOutput n) =
      some (.list collected) :=
    (Environment.get?_under_free hfree).trans (Environment.get?_under_bound h.output)
  have houtput : (Expr.ident (loopOutput n)).LeadsTo _ (.ok (.list collected)) _ :=
    .of_evaluates fun _ => evaluates_bound hfound
  have hargs : ∀ fuel, (Eval.all (evalWithin fuel) [body, .ident (loopOutput n)]).Leads start
      (.ok [value, .list collected]) ((before.under scope).under (roundScope n number)) :=
    fun fuel => .all_cons (hbody fuel) (.all_cons (houtput fuel) .all_nil)
  have hvalue : Builtin.endcons.apply [value, .list collected] =
      .ok (.list (collected ++ [value])) := rfl
  have hplain : ((before.under scope).under (roundScope n number)).HasBuiltins := hplain
  have hcollect := (LeadsTo.ofBuiltin hplain hargs hvalue).assigned (loopOutput n)
  rwa [Machine.assign_through hfree hbound] at hcollect

/-- One round: the iterators take their members, and what the body gives for them
is collected. -/
theorem Staged.exists_round {k : Nat} {outcome : Except EvalError Value}
    (h : Staged n (iterators.map Prod.fst) lists lists.length collected scope)
    (hloop : Iterates n iterators body lists) (hbare : before.Bare)
    (hk : k < Lockstep.shortest lists)
    (hrun : body.evalWithin fuel
      (before.under (.ofList ((iterators.map Prod.fst).zip (Lockstep.row lists k)))) =
        lift outcome last)
    (hgas : outcome ≠ .error .gasExhausted) :
    ∃ rest : Scope, (loopRound n iterators body).LeadsTo
        ((before.under scope).under (roundScope n (.int (k + 1))))
        (outcome.map fun value => .list (collected ++ [value]))
        ((last.closed.under rest).under (roundScope n (.int (k + 1)))) ∧
      ∀ value, outcome = .ok value →
        Staged n (iterators.map Prod.fst) lists lists.length (collected ++ [value]) rest := by
  have hshort : ∀ list ∈ lists, k < list.length :=
    fun list hlist => hk.trans_le (Lockstep.shortest_le hlist)
  have hrow := Lockstep.length_row hshort
  have hnames : ((iterators.map Prod.fst).zip (Lockstep.row lists k)).map Prod.fst =
      iterators.map Prod.fst := List.map_fst_zip (by simp [hrow, hloop.length])
  have hmembers : ∀ i value, (Lockstep.row lists k)[i]? = some value → ∃ list,
      scope.get? (loopList n (0 + i + 1)) = some (.list list) ∧ list[k]? = some value := by
    intro i value hvalue
    rw [Lockstep.getElem?_row hshort, Option.bind_eq_some_iff] at hvalue
    obtain ⟨list, hlist, hvalue⟩ := hvalue
    obtain ⟨source, hsource, -, hlisted⟩ := h.sources i list hlist
    rw [hlisted (List.getElem?_eq_some_iff.mp hlist).1] at hsource
    exact ⟨list, by rwa [Nat.zero_add], hvalue⟩
  obtain ⟨reached, hfirst⟩ := @exists_membersRun n before _ _ _ _ 0 (.bool false)
    (hloop.length.trans hrow.symm) hmembers
    (fun iterator hmem => ⟨hloop.named iterator hmem, h.iterators _ (List.mem_map_of_mem hmem)⟩)
  obtain ⟨rest, hrest, hleads⟩ := h.exists_body (.int (k + 1)) hloop hnames hbare hrun hgas
  have hround : loopMembers n iterators = iterators.zipIdx.map fun member =>
      Expr.assign member.1.1
        (.index (.ident (loopList n (member.2 + 1))) [.ident (loopIndex n)]) :=
    List.mapIdx_eq_zipIdx_map
  rw [← hround] at hfirst
  cases outcome with
  | ok value =>
      have hplain := (bare_closed hbare hloop.tidy hrun).builtins
      have hcollect := hrest.leadsTo_collect (.int (k + 1)) hplain hleads
      refine ⟨_, .group (hfirst.append (.one hcollect)), fun other hother => ?_⟩
      obtain rfl := Except.ok.inj hother
      exact hrest.collect value
  | error error =>
      have hcall : (Expr.call Builtin.endcons.name [body, .ident (loopOutput n)]).LeadsTo _
          (.error error) _ := .ofBuiltin_error fun fuel => .all_error (hleads fuel)
      have hcollect := hcall.assigned_error (loopOutput n)
      exact ⟨rest, .group (hfirst.append (.one hcollect)), by simp⟩

/-- The stage after rounds that gave this text: it has been collected. -/
def Gathered (n : Nat) (names : List String) (lists : List (List Value)) (collected : List Value)
    (outcome : Except EvalError String) (scope : Scope) : Prop :=
  ∀ text, outcome = .ok text → ∃ values, text = Value.joinTexts "" values ∧
    Staged n names lists lists.length (collected ++ values) scope

namespace Gathered

variable {names : List String} {value : Value} {outcome : Except EvalError String}

theorem nil (h : Staged n names lists lists.length collected scope) :
    Gathered n names lists collected (.ok "") scope := by
  intro text htext
  refine ⟨[], (Except.ok.inj htext).symm, ?_⟩
  rwa [List.append_nil]

theorem cons (h : Gathered n names lists (collected ++ [value]) outcome scope) :
    Gathered n names lists collected (outcome.map (value.displayText ++ ·)) scope := by
  intro text htext
  cases outcome with
  | ok tail =>
      obtain ⟨values, rfl, hstaged⟩ := h tail rfl
      rw [List.append_assoc] at hstaged
      refine ⟨value :: values, ?_, hstaged⟩
      rw [Concat.joinTexts_cons]
      exact (Except.ok.inj htext).symm
  | error error => cases htext

end Gathered

/-- The rounds from one on, by induction on how many there are. -/
theorem Staged.exists_rounds {first count : Nat} {outcome : Except EvalError String}
    (h : Staged n (iterators.map Prod.fst) lists lists.length collected scope)
    (hloop : Iterates n iterators body lists) (hbare : before.Bare)
    (hinner : ∀ number, inner.insert (loopIndex n) number = roundScope n number)
    (hcount : first + count = Lockstep.shortest lists)
    (hrun : inTurn (body.evalWithin fuel) (iterators.map Prod.fst)
      ((List.range' first count).map (Lockstep.row lists)) before = lift outcome after)
    (hgas : outcome ≠ .error .gasExhausted) :
    ∃ rest bottom : Scope, (∀ fuel, (forEach (evalWithin fuel) (loopIndex n)
          (loopRound n iterators body)
          ((List.range' first count).map fun k : Nat => .int (k + 1))).Leads
        ((before.under scope).under inner) (outcome.map fun _ => ())
        ((after.under rest).under bottom)) ∧
      Gathered n (iterators.map Prod.fst) lists collected outcome rest := by
  induction count generalizing first scope inner collected before outcome with
  | zero =>
      obtain ⟨rfl, rfl⟩ := lift_injective ((lift_ok "" before).trans hrun)
      exact ⟨scope, inner, fun _ => .lifted (.ok ()), .nil h⟩
  | succ count ih =>
      have hfirst : first < Lockstep.shortest lists := by omega
      rw [List.range'_succ, List.map_cons] at hrun ⊢
      rcases inTurn_cons hrun with ⟨value, last, others, hvalue, hothers, rfl⟩ |
        ⟨error, last, herror, rfl, rfl⟩
      · have hrun := hvalue.trans (lift_ok value last).symm
        obtain ⟨middle, hround, hmiddle⟩ :=
          h.exists_round hloop hbare hfirst hrun (by simp)
        have hnext : ∀ number, (roundScope n (.int (first + 1))).insert (loopIndex n) number =
            roundScope n number := fun number => NameMap.insert_insert _ _ number _
        have hleft : others ≠ .error .gasExhausted := by
          rintro rfl
          exact hgas rfl
        obtain ⟨rest, bottom, hrounds, hrest⟩ := ih (hmiddle value rfl)
          (bare_closed hbare hloop.tidy hrun) hnext (by omega) hothers hleft
        refine ⟨rest, bottom, fun fuel => ?_, hrest.cons⟩
        have hleads := hround fuel
        rw [← define_roundScope hinner] at hleads
        have hall := Leads.forEach_cons hleads (hrounds fuel)
        cases others <;> exact hall
      · have hrun := herror.trans (lift_error error last).symm
        have hleft : (.error error : Except EvalError Value) ≠ .error .gasExhausted := by
          rintro ⟨⟩
          exact hgas rfl
        obtain ⟨rest, hround, -⟩ := h.exists_round hloop hbare hfirst hrun hleft
        refine ⟨rest, roundScope n (.int (first + 1)), fun fuel => ?_, by simp [Gathered]⟩
        have hleads := hround fuel
        rw [← define_roundScope hinner] at hleads
        exact .forEach_error hleads

/-- All rounds, from the sources on the stage to what was collected. -/
theorem Staged.runs_rounds {staged : Machine} {outcome : Except EvalError String}
    {result : Value} (h : Staged n (iterators.map Prod.fst) lists 0 [] scope)
    (hloop : Iterates n iterators body lists) (hbare : staged.Bare)
    (hshort : ∃ list ∈ lists, list.length < Decimal.twoPow 53)
    (hrun : inTurn (body.evalWithin fuel) (iterators.map Prod.fst) (Lockstep.rows lists) staged =
      lift outcome after)
    (hplain : after.HasBuiltins) (hgas : outcome ≠ .error .gasExhausted) :
    ∃ rest : Scope, RunLeadsTo (staged.under scope) result
      (loopListed n iterators.length ++ [loopRounds n iterators body, loopResult n true])
      (outcome.map .str) (after.under rest) := by
  obtain ⟨full, reached, hfull, hlisted⟩ :=
    h.exists_listed hbare.builtins (Nat.zero_add lists.length) result
  rw [← List.range_eq_range', ← hloop.length] at hlisted
  rw [Lockstep.rows, List.range_eq_range'] at hrun
  have hempty : ∀ number, NameMap.empty.insert (loopIndex n) number = roundScope n number :=
    fun _ => rfl
  obtain ⟨rest, bottom, hrounds, hcollected⟩ :=
    hfull.exists_rounds hloop hbare hempty (Nat.zero_add _) hrun hgas
  have hends : (loopRounds n iterators body).LeadsTo (staged.under full)
      ((outcome.map fun _ => ()).map fun _ => .symbol "done") (after.under rest) := by
    refine .forRange (fun budget fuel => ?_) hrounds
    have hplain : { staged.under full with limit := budget }.HasBuiltins := hbare.builtins
    rw [hloop.length, ← List.range_eq_range']
    exact hfull.ends_range hplain hshort fuel
  refine ⟨rest, hlisted.append ?_⟩
  cases outcome with
  | ok text =>
      obtain ⟨values, rfl, hjoined⟩ := hcollected text rfl
      have hresult : (loopResult n true).LeadsTo (after.under rest)
          (.ok (.str (Value.joinTexts "" values))) (after.under rest) :=
        .of_evaluates fun _ => hjoined.evaluates_result hplain
      exact .cons hends (.one hresult)
  | error error => exact .cons_error hends

end Emit

/-- A flat loop over lists and sets gives, for one row of their members after the
other, the texts of its body, as many as the shortest source has members.  It
fails if its body fails for one of the rows, and then the same way; only a
`return`, which an outside function may bring, ends it with a value.  Iterators
and helper variables are afterwards what they were.

Lengths are compared as doubles, so the shortest list has to have fewer than
`2 ^ 53` members, as every list that can be stored has. -/
theorem Block.foreach_runs_in_turn {loops fuel : Nat} {iterators : List (String × Expr)}
    {body : Block} {machine staged after : Machine} {values : List Value}
    {lists : List (List Value)} {outcome : Except EvalError String} (hflat : body.isFlat = true)
    (hauthored : ∀ e ∈ (Block.foreach iterators body).authored, e.Tidy)
    (hbinders : ∀ name ∈ (Block.foreach iterators body).binders, isHidden name = false)
    (hbare : machine.Bare)
    (hsources : Eval.all (Expr.evalWithin fuel) (iterators.map Prod.snd) machine =
      .ok values staged)
    (hlists : values.map Value.members? = lists.map some)
    (hshort : ∃ list ∈ lists, list.length < Decimal.twoPow 53)
    (hrun : Eval.inTurn ((body.codeAfter (loops + 1)).evalWithin fuel) (iterators.map Prod.fst)
      (Lockstep.rows lists) staged = Eval.lift outcome after)
    (hgas : outcome ≠ .error .gasExhausted) :
    ((Block.foreach iterators body).codeAfter loops).LeadsTo machine
        (Eval.unwound (outcome.map .str)) after ∧
      ([] ∈ lists → outcome = .ok "") ∧
      (∀ name ∈ iterators.map Prod.fst, after.env.column name = staged.env.column name) ∧
      ∀ name, isHidden name = true → after.env.column name = machine.env.column name := by
  rw [Block.authored, List.forall_mem_append] at hauthored
  rw [Block.binders, List.forall_mem_append] at hbinders
  have hbody : (body.codeAfter (loops + 1)).Obeys .tidy Expr.visible :=
    Block.obeys_codeAfter (loops + 1) body (fun e he => (hauthored.2 e he).obeys) hbinders.2
  obtain ⟨hstaged, hvalues⟩ := (Eval.Keeps.all (fun _ _ => True) fun e he =>
    Eval.Keeps.evalWithin fuel (Set.Subset.refl _) (hauthored.1 e he).obeys).ends
      (Policy.governs_tidy_iff.mpr hbare) (hsources.trans (Eval.lift_ok values staged).symm)
  have hlength : iterators.length = lists.length := by
    have hsame := congrArg List.length hlists
    have hcount := List.Forall₂.length_eq hvalues
    simp only [List.length_map] at hsame hcount
    omega
  have hloop : Emit.Iterates (loops + 1) iterators (body.codeAfter (loops + 1)) lists :=
    ⟨hlength, List.forall_mem_map.mp hbinders.1, hbody,
      Block.omits_loopHelpers lists.length hflat hauthored.2 hbinders.2⟩
  have hrows : ∀ row ∈ Lockstep.rows lists, row.length = (iterators.map Prod.fst).length := by
    intro row hrow
    rw [Lockstep.length_of_mem_rows hrow, List.length_map, hlength]
  obtain ⟨hafter, -⟩ := (Eval.Keeps.inTurn (Eval.Keeps.evalWithin fuel (Set.Subset.refl _) hbody)
    hrows).ends hstaged.governs hrun
  refine ⟨?_, fun hempty => ?_, fun name hname => ?_, fun name hname => ?_⟩
  · have hbare := Policy.governs_tidy_iff.mp hstaged.governs
    have hplain := (Policy.governs_tidy_iff.mp hafter.governs).builtins
    have hstart := Emit.Staged.start (n := loops + 1) hbinders.1 hlists
    obtain ⟨rest, hruns⟩ := hstart.runs_rounds hloop hbare hshort hrun hplain hgas
    rw [Block.codeAfter, Emit.loop_eq, hflat]
    exact Expr.LeadsTo.scoped (Emit.declares_loopLocals hsources) hruns
  · rw [Lockstep.rows_of_nil_mem hempty] at hrun
    exact (Eval.lift_injective ((Eval.lift_ok "" staged).trans hrun)).1.symm
  · exact (hafter.changes name).2 fun hwritten => hwritten.2 hname
  · have hhidden : name ∉ Expr.visible := by
      intro hvisible
      cases hname.symm.trans hvisible
    rw [(hafter.changes name).2 fun hwritten => hhidden hwritten.1]
    exact (hstaged.changes name).2 hhidden

/-- The sources of the loop. -/
def pairedSources : List (String × Expr) :=
  [("x", .list [.int 1, .int 2, .int 3]), ("y", .ident "pool")]

/-- The body of the loop. -/
def pairedBody : Block :=
  .container [.inject ⟨.value, .ident "x", none, none, false⟩,
    .foreach [("x", .list [.ident "y", .ident "y"])]
      (.inject ⟨.value, .ident "x", none, none, false⟩),
    .text ";"]

/-- The set and one of the iterators are bound around the loop. -/
def pairedMachine : Machine :=
  (Machine.fresh 1000).under (NameMap.ofList [("pool", .set [.str "b", .str "a"]), ("x", .int 8)])

/-- The members of the sources. -/
def pairedLists : List (List Value) := [[.int 1, .int 2, .int 3], [.str "b", .str "a"]]

/-- The sources, and then the rounds. -/
def pairedRun : Eval (List Value × String) := do
  let values ← Eval.all (Expr.evalWithin 20) (pairedSources.map Prod.snd)
  let text ← Eval.inTurn ((pairedBody.codeAfter 1).evalWithin 20) (pairedSources.map Prod.fst)
    (Lockstep.rows pairedLists)
  return (values, text)

/-- The list, the set and a text for two rounds. -/
def isPaired : List Value × String → Bool
  | ([.list [.int 1, .int 2, .int 3], .set [.str "b", .str "a"]], text) => text = "1bb;2aa;"
  | _ => false

theorem eq_of_isPaired {found : List Value × String} (h : isPaired found = true) :
    found = ([.list [.int 1, .int 2, .int 3], .set [.str "b", .str "a"]], "1bb;2aa;") := by
  unfold isPaired at h
  split at h
  · exact congrArg _ (of_decide_eq_true h)
  · cases h

/-- The text for two rounds. -/
def isPairedText : Value → Bool
  | .str text => text = "1bb;2aa;"
  | _ => false

theorem eq_of_isPairedText {found : Value} (h : isPairedText found = true) :
    found = .str "1bb;2aa;" := by
  unfold isPairedText at h
  split at h
  · exact congrArg _ (of_decide_eq_true h)
  · cases h

/-- Does a run give a value that passes this test? -/
def gives {α : Type} (test : α → Bool) : EStateM.Result EvalError Machine α → Bool
  | .ok value _ => test value
  | .error _ _ => false

theorem exists_of_gives {α : Type} {test : α → Bool}
    {result : EStateM.Result EvalError Machine α} (h : gives test result = true) :
    ∃ value after, result = .ok value after ∧ test value = true := by
  unfold gives at h
  split at h
  · exact ⟨_, _, rfl, h⟩
  · cases h

theorem pairedLoop_runs_in_turn :
    pairedBody.isFlat = true ∧
    (∀ e ∈ (Block.foreach pairedSources pairedBody).authored, e.Tidy) ∧
    (∀ name ∈ (Block.foreach pairedSources pairedBody).binders, isHidden name = false) ∧
    pairedMachine.Bare ∧
    (∃ final, ((Block.foreach pairedSources pairedBody).codeAfter 0).eval pairedMachine =
      .ok (.str "1bb;2aa;") final) ∧
    ∃ after, ((Block.foreach pairedSources pairedBody).codeAfter 0).LeadsTo pairedMachine
        (.ok (.str "1bb;2aa;")) after ∧
      after.env.column "%_fe1_o" = pairedMachine.env.column "%_fe1_o" := by
  have hflat : pairedBody.isFlat = true := by decide +kernel
  have hauthored : ∀ e ∈ (Block.foreach pairedSources pairedBody).authored, e.Tidy := by
    decide +kernel
  have hbinders : ∀ name ∈ (Block.foreach pairedSources pairedBody).binders,
      isHidden name = false := by decide +kernel
  have hbare : pairedMachine.Bare := ⟨fun _ => ⟨rfl, rfl⟩, fun _ => rfl⟩
  obtain ⟨value, final, hwhole, hvalue⟩ := exists_of_gives (by decide +kernel :
    gives isPairedText (((Block.foreach pairedSources pairedBody).codeAfter 0).eval
      pairedMachine) = true)
  obtain rfl := eq_of_isPairedText hvalue
  obtain ⟨found, after, hgives, hfound⟩ :=
    exists_of_gives (by decide +kernel : gives isPaired (pairedRun pairedMachine) = true)
  obtain rfl := eq_of_isPaired hfound
  rcases Eval.bind_cases (hgives.trans (Eval.lift_ok _ after).symm) with
    ⟨values, staged, hsources, hrest⟩ | ⟨_, _, ⟨⟩⟩
  rcases Eval.bind_cases hrest with ⟨text, last, hrounds, hend⟩ | ⟨_, _, ⟨⟩⟩
  cases hend
  have hlists : [Value.list [.int 1, .int 2, .int 3], .set [.str "b", .str "a"]].map
      Value.members? = pairedLists.map some := rfl
  have hrun := hrounds.trans (Eval.lift_ok "1bb;2aa;" after).symm
  have hloop := Block.foreach_runs_in_turn hflat hauthored hbinders hbare hsources hlists
    ⟨_, List.mem_cons_self, by decide⟩ hrun (by simp)
  exact ⟨hflat, hauthored, hbinders, hbare, ⟨final, hwhole⟩, after, hloop.1,
    hloop.2.2.2 _ (by decide)⟩

end SceneQuiz
