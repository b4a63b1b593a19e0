import SceneQuiz.Proofs.ResponseTree.Progress
/-!
What the function of a response tree reports of the state.  It reports every
state variable that some transition code may assign, with the value that the
variable has in the end.  So a variable that was not assigned on the way is
reported with the value from before.
-/

namespace SceneQuiz

namespace ResponseTree

/-- Each item is a state variable with a value.  A variable that nothing on the
way assigns, nor the transition code of the last visit, has its value from
before. -/
def Reports (tree : ResponseTree) (slots : List StateVariable) (before : Environment)
    (visits : List Visit) (updates : List Value) : Prop :=
  ∀ update ∈ updates, ∃ slot ∈ slots, ∃ value, update = .list [.int slot.storage, value] ∧
    (slot.name ≠ "simp" → slot.name ∉ tree.assignedAlong visits →
      slot.name ∉ assignedLast visits → value = before.reading slot.name)

/-- The variables once the report is made. -/
def Closing (tree : ResponseTree) (slots : List StateVariable) (before env : Environment) : Prop :=
  ∃ visits updates, (∀ visit ∈ visits, visit.node ∈ tree.nodes) ∧
    tree.Reports slots before visits updates ∧
      Stands [(Vars.path, trail visits), (Vars.updates, .list updates)] ∅ before env

/-- Names of the author that the function declares. -/
def Plan.pool (plan : Plan) : Set String := {name | name ∈ plan.writes ∧ name ≠ "simp"}

/-- The code of a tree assigns no more than what the tree says. -/
structure Plan.Sparing (setting : Setting) (pool : Set String) (tree : ResponseTree)
    (plan : Plan) : Prop where
  setup : ∀ statement ∈ plan.setup,
    Emit.Sparing setting pool (fragmentWrites tree.feedbackVariables) statement.expr
  nodes : ∀ found ∈ plan.nodes, ∃ node ∈ tree.nodes, found.Sparing setting pool node

/-- An answer of the function, with the path of its visits and its report. -/
def Answered (tree : ResponseTree) (slots : List StateVariable) (before : Environment)
    (value : Value) : Prop :=
  ∃ visits updates items, (∀ visit ∈ visits, visit.node ∈ tree.nodes) ∧
    tree.Reports slots before visits updates ∧ value = .list items ∧ items.length = 8 ∧
      items[2]? = some (trail visits) ∧ items[6]? = some (.list updates)

namespace Emit

open Eval

variable {tree : ResponseTree} {setting : Setting} {pool : Set String} {before : Environment}
  {fuel : Nat} {visits : List Visit}

/-- What is reported of one state variable. -/
theorem brings_slot {slot : StateVariable} (hstorage : slot.storage < 0x8000000000000000)
    (start : Environment) :
    Proceeds setting (· = start)
      (fun found env => env = start ∧ found = .list [.int slot.storage, start.reading slot.name])
      ((Expr.list [.int slot.storage, .ident slot.name]).evalWithin fuel) := by
  have hnumber : ∀ less, Proceeds setting (· = start)
      (fun found env => env = start ∧ found = .int slot.storage)
      ((Expr.int slot.storage).evalWithin less) := by
    intro less
    rw [Expr.int_natCast]
    apply (Brings.number _ fun _ _ => trivial).giving
    rintro found env ⟨heq, hfound⟩
    rw [Value.ofNumber?_toString hstorage] at hfound
    exact ⟨heq, (Option.some.inj hfound).symm⟩
  have hread : ∀ less, Proceeds setting (· = start)
      (fun found env => env = start ∧ found = start.reading slot.name)
      ((Expr.ident slot.name).evalWithin less) := by
    intro less
    apply (Brings.ident slot.name).giving
    rintro found env ⟨rfl, hfound⟩
    exact ⟨rfl, hfound⟩
  apply Brings.of_step
  intro less _
  apply (Brings.two (hnumber less) (hread less)).bind
  intro values
  apply Brings.value
  rintro env ⟨heq, _, _, rfl, rfl, rfl⟩
  exact ⟨heq, rfl⟩

/-- The list that is reported, with the values that the variables have now. -/
theorem brings_slots {slots : List StateVariable}
    (hstorage : ∀ slot ∈ slots, slot.storage < 0x8000000000000000) (start : Environment) :
    Proceeds setting (· = start)
      (fun found env => env = start ∧ ∃ updates, found = .list updates ∧ ∀ update ∈ updates,
        ∃ slot ∈ slots, update = .list [.int slot.storage, start.reading slot.name])
      ((Expr.list (slots.map fun slot =>
        .list [.int slot.storage, .ident slot.name])).evalWithin fuel) := by
  let shown : Expr → Value → Prop := fun _ found =>
    ∃ slot ∈ slots, found = .list [.int slot.storage, start.reading slot.name]
  have hitems : ∀ less < fuel, ∀ e ∈ slots.map fun slot =>
      Expr.list [.int slot.storage, .ident slot.name], Proceeds setting (· = start)
        (fun found env => env = start ∧ shown e found) (e.evalWithin less) := by
    intro less _
    refine List.forall_mem_map.mpr fun slot hslot => ?_
    apply (brings_slot (hstorage slot hslot) start).giving
    exact fun found env hfound => ⟨hfound.1, slot, hslot, hfound.2⟩
  apply (Brings.list hitems).giving
  rintro found env ⟨heq, updates, rfl, hupdates⟩
  refine ⟨heq, updates, rfl, fun update hupdate => ?_⟩
  obtain ⟨index, hindex, rfl⟩ := List.mem_iff_getElem.mp hupdate
  obtain ⟨hlength, hshown⟩ := List.forall₂_iff_get.mp hupdates
  exact hshown index (hlength ▸ hindex) hindex

section Reporting

variable {slots : List StateVariable} {written : NameSet}

/-- Nothing is reported yet. -/
theorem closing_of_stage {stopped : Bool} {env : Environment}
    (hvisits : ∀ visit ∈ visits, visit.node ∈ tree.nodes)
    (h : tree.Stage pool before visits stopped env) : tree.Closing slots before env := by
  refine ⟨visits, [], hvisits, List.forall_mem_nil _, h.weaken ?_ (Set.empty_subset _)⟩
  simp [marks]

/-- The report on the way to a scene. -/
theorem brings_report {stopped : Bool} {changed : List StateVariable}
    (hvisits : ∀ visit ∈ visits, visit.node ∈ tree.nodes)
    (hslots : ∀ slot ∈ changed, slot ∈ slots)
    (hpool : ∀ slot ∈ changed, slot.name ≠ "simp" → slot.name ∈ pool)
    (hstorage : ∀ slot ∈ changed, slot.storage < 0x8000000000000000) :
    Proceeds setting (tree.Stage pool before visits stopped)
      (fun _ => tree.Closing slots before)
      ((Expr.assign Vars.updates (.list (changed.map fun slot =>
        .list [.int slot.storage, .ident slot.name]))).evalWithin fuel) := by
  apply Brings.of_each
  intro start hstart
  apply Brings.assign fun less _ => brings_slots hstorage start
  rintro _ env ⟨rfl, updates, rfl, hupdates⟩
  refine ⟨visits, updates, hvisits, fun update hupdate => ?_, ?_⟩
  · obtain ⟨slot, hslot, rfl⟩ := hupdates update hupdate
    refine ⟨slot, hslots slot hslot, _, rfl, fun hsimp halong hlast => ?_⟩
    apply hstart.watched
    refine ⟨hpool slot hslot hsimp, fun hmem => ?_⟩
    rcases List.mem_append.mp hmem with hmem | hmem
    · exact halong hmem
    · split at hmem
      · exact hlast hmem
      · cases hmem
  · have hpath : Stands [(Vars.path, trail visits)] ∅ before env :=
      hstart.weaken (by simp [marks]) (Set.empty_subset _)
    apply (hpath.learn (by decide : Vars.updates ∉ [Vars.path]) (Set.notMem_empty _) _).weaken
    · simp
    · exact fun _ hname => hname

section Course

variable (hwatches : Watches setting pool)

include hwatches

theorem brings_updates (hpool : ∀ name ∈ written, name ≠ "simp" → name ∈ pool)
    (hstorage : ∀ slot ∈ slots, slot.storage < 0x8000000000000000) (last : Value) :
    Proceeds setting (tree.Progress pool before) (fun _ => tree.Closing slots before)
      (sequence (Expr.evalWithin fuel) last (updates slots written)) := by
  apply Brings.of_each
  rintro start ⟨visits, hvisits, stopped, hstart⟩
  have hcourse : Proceeds setting (tree.Stage pool before visits stopped)
      (fun _ => tree.Closing slots before)
      (sequence (Expr.evalWithin fuel) last (updates slots written)) := by
    unfold updates
    dsimp only
    split
    · exact .value fun _ hstage => closing_of_stage hvisits hstage
    · have htest : Steady setting fuel (tree.Stage pool before visits stopped)
          (.binary .notEq (.ident Vars.nextScene) (.bool false)) := by
        have hupholds : Upholds setting fuel (tree.Stage pool before visits stopped) Unmarked
          (fun _ => True) (Sparing setting pool []) := hwatches.stage (List.nil_subset _)
        exact hupholds.forms.binary _ (by decide) (hupholds.forms.slot (by decide))
          (hupholds.forms.bool false)
      have hchanged : ∀ slot ∈ slots.filter fun slot => decide (slot.name ∈ written),
          slot ∈ slots ∧ slot.name ∈ written := by
        simp
      refine Brings.sequence_cons ?_ fun _ => .value fun _ hclosing => hclosing
      apply Brings.ifThen (fun less hless => htest.brings hless fun _ _ => trivial)
        fun _ _ _ => trivial
      · exact fun less _ => brings_report hvisits (fun slot hslot => (hchanged slot hslot).1)
          (fun slot hslot => hpool _ (hchanged slot hslot).2)
          fun slot hslot => hstorage slot (hchanged slot hslot).1
      · exact nofun
      · exact fun _ _ hstage => closing_of_stage hvisits hstage
  apply hcourse.starting
  rintro _ rfl
  exact hstart

/-- From the report on, the function only rounds the scores and answers. -/
theorem brings_closing (isScored : Bool) (scale : Nat) (last : Value) :
    Proceeds setting (tree.Closing slots before)
      (fun value _ => tree.Answered slots before value)
      (sequence (Expr.evalWithin fuel) last
        ((if isScored then [rounded Vars.score scale, rounded Vars.penalty scale] else []) ++
          [result])) := by
  apply Brings.of_each
  rintro start ⟨visits, updates, hvisits, hreports, hstart⟩
  have hfuel : fuel < fuel + 1 := Nat.lt_succ_self fuel
  have hupholds : Upholds setting (fuel + 1)
      (Stands [(Vars.path, trail visits), (Vars.updates, .list updates)] ∅ before)
      (fun name => name ∈ "simp" :: ownNames ∧ name ∉ [Vars.path, Vars.updates]) (fun _ => True)
      (Sparing setting pool []) := by
    apply hwatches.upholds
    · change ∀ name ∈ [Vars.path, Vars.updates], name ∈ markNames
      decide
    · exact fun _ hname => hname.elim
  have hrounding := hupholds.forms.rounding (by decide) isScored scale
  have hresult : ∀ last, Proceeds setting
      (Stands [(Vars.path, trail visits), (Vars.updates, .list updates)] ∅ before)
      (fun value _ => tree.Answered slots before value)
      (sequence (Expr.evalWithin fuel) last [result]) := by
    intro last
    refine Brings.bind ?_ fun value => .value fun _ hanswered => hanswered
    apply (hupholds.brings_result hfuel).imp (fun _ hstands => hstands)
    · rintro _ _ ⟨items, rfl, hitems, hslots⟩
      obtain ⟨env, hstands, hpath⟩ := hslots (2, Vars.path) (by simp)
      obtain ⟨other, hother, hupdates⟩ := hslots (6, Vars.updates) (by simp)
      rw [hstands.facts (Vars.path, trail visits) (by simp)] at hpath
      rw [hother.facts (Vars.updates, .list updates) (by simp)] at hupdates
      exact ⟨visits, updates, items, hvisits, hreports, rfl, hitems, hpath, hupdates⟩
    · exact fun _ _ => trivial
    · exact fun _ _ hleft => hleft.1
  apply (Brings.sequence_append (hrounding.brings hfuel fun _ _ => trivial) hresult last).starting
  rintro _ rfl
  exact hstart

end Course

end Reporting

section Function

variable {plan : Plan} {scope : Scope} {ctx : TreeContext}

/-- The function opens with no visit, and all names as they were. -/
theorem Opened.stands {start : Environment} (h : Opened plan.writes start scope)
    (hown : ∀ name ∈ ownNames, name ∉ plan.writes) :
    Stands (marks [] false) plan.pool start (start.under scope) := by
  have hread : ∀ {name value}, scope.get? name = some value →
      (start.under scope).reading name = value := by
    intro name value hvalue
    simp [Environment.reading, Environment.get?_eq_column, hvalue]
  constructor
  · simp only [marks, List.forall_mem_cons]
    exact ⟨hread (h.lists _ (by decide) (hown _ (by decide))),
      hread (h.truths _ (by decide) (hown _ (by decide))),
      hread (h.lists _ (by decide) (hown _ (by decide))), List.forall_mem_nil _⟩
  · intro name hname
    apply hread (h.outer name hname.1 _)
    rw [List.mem_cons, not_or]
    exact ⟨hname.2, fun hmem => hown name hmem hname.1⟩

section Work

variable (hwatches : Watches setting plan.pool) (hplan : plan.Sparing setting plan.pool tree)

include hwatches hplan

/-- The work of the function up to its report. -/
theorem brings_nodes (errorLimit : Nat) (last : Value) :
    Proceeds setting (tree.Stage plan.pool before [] false)
      (fun _ => tree.Progress plan.pool before)
      (sequence (Expr.evalWithin fuel) last
        ((if plan.setup.isEmpty then [] else [orGiveUp (plan.setup.map Statement.expr)]) ++
          plan.nodes.map fun node => Emit.node node errorLimit)) := by
  have hfuel : fuel < fuel + 1 := Nat.lt_succ_self fuel
  have hupholds : Upholds setting (fuel + 1) (tree.Stage plan.pool before [] false) Unmarked
      (fun _ => True) (Sparing setting plan.pool (fragmentWrites tree.feedbackVariables)) :=
    hwatches.stage (by simp [touched, assignedAlong])
  have hsetup := hupholds.forms.setup hplan.setup
  have hnodes : ∀ e ∈ plan.nodes.map fun node => Emit.node node errorLimit,
      Proceeds setting (tree.Progress plan.pool before) (fun _ => tree.Progress plan.pool before)
        (e.evalWithin fuel) := by
    refine List.forall_mem_map.mpr fun found hfound => ?_
    obtain ⟨node, hnode, hsparing⟩ := hplan.nodes found hfound
    exact brings_node hwatches hsparing hnode errorLimit
  refine Brings.sequence_append (fun last => ?_) (Brings.sequence_all hnodes) last
  apply (hsetup.brings hfuel (fun _ _ => trivial) last).giving
  exact fun _ _ hstage => ⟨[], List.forall_mem_nil _, false, hstage⟩

theorem brings_body (hstorage : ∀ slot ∈ ctx.stateVariables, slot.storage < 0x8000000000000000)
    (isScored : Bool) :
    Proceeds setting (tree.Stage plan.pool before [] false)
      (fun value _ => tree.Answered ctx.stateVariables before value)
      (sequence (Expr.evalWithin fuel) (.bool false) (plan.body isScored ctx)) := by
  have htransitions : ∀ name ∈ plan.transitionWrites, name ≠ "simp" → name ∈ plan.pool :=
    fun name hname hsimp => ⟨NameSet.mem_union.mpr (.inr hname), hsimp⟩
  rw [Plan.body_eq, Plan.work, List.append_assoc]
  exact Brings.sequence_append
    (Brings.sequence_append (brings_nodes hwatches hplan ctx.options.nodeErrorLimit)
      (brings_updates hwatches htransitions hstorage))
    (brings_closing hwatches isScored ctx.options.scoreScale) (.bool false)

/-- A call of the function gives up, or answers with what it has to report. -/
theorem brings_answer (hown : ∀ name ∈ ownNames, name ∉ plan.writes)
    (hstorage : ∀ slot ∈ ctx.stateVariables, slot.storage < 0x8000000000000000)
    (start : Environment) (isScored : Bool) :
    Brings setting (· = start)
      (fun value _ => value = .list [] ∨ tree.Answered ctx.stateVariables start value)
      (fun _ => True) (fun _ _ => True) ((plan.function isScored ctx).evalWithin fuel) := by
  apply brings_function _ fun _ _ => trivial
  rintro less - _ scope rfl hopened
  apply (brings_body hwatches hplan hstorage isScored).imp
  · rintro _ rfl
    exact (hopened.stands hown).weaken (fun _ hfact => hfact) fun _ hname => hname.1
  · exact fun _ _ hanswered => .inr hanswered
  · exact fun _ _ => trivial
  · exact fun _ _ hnone => .inl hnone

end Work

end Function

end Emit

end ResponseTree

end SceneQuiz
