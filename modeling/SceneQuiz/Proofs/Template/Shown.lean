import SceneQuiz.Proofs.Machine.Tracking
import SceneQuiz.Proofs.Page.Completion
import SceneQuiz.Proofs.Template.Concatenation
import SceneQuiz.Proofs.Template.EmittedForm
import SceneQuiz.Proofs.Template.Frame
import SceneQuiz.Proofs.Template.Placement
/-!
The values of blocks in normal form.  As long as the author's code leaves the
helper variables alone, defines none of the functions that blocks call and uses
no `return`, the value of a flat block is a text and that of any other is
rendered; only the start of a numbering may turn out to be no integer.
-/

namespace SceneQuiz

/-- Is this name kept for the helper variables of compiled code? -/
def isHidden (name : String) : Bool := "%_".toList.isPrefixOf name.toList

/-- Functions that have to be what they are for blocks to have the values they
should have. -/
def Emit.reserved : List String :=
  ["append", "castext", "endcons", "sconcat", "simplode", "stack_disp", "string"]

namespace Policy

/-- No helper variable is assigned, no reserved function is defined, outside
functions hide no builtin, and nothing ends in a `return`. -/
def discreet : Policy where
  writes := {name | isHidden name = false}
  defines := {name | name ∉ Emit.reserved}
  hosts := {name | ∀ builtin : Builtin, builtin.name ≠ name}
  returns := False

theorem governs_discreet {machine : Machine} (hbuiltins : machine.HasBuiltins)
    (hfunctions : ∀ name, machine.functions.get? name = none)
    (hhosts : ∀ name host, machine.hosts.get? name = some host → ∀ args, Unreturned (host args)) :
    discreet.Governs machine := by
  constructor
  · intro name function hfunction
    rw [hfunctions name] at hfunction
    cases hfunction
  · intro name host hhost
    refine ⟨?_, .inr (hhosts name host hhost)⟩
    rintro builtin rfl
    rw [(hbuiltins builtin).1] at hhost
    cases hhost

/-- The functions that yield texts are those that are built in. -/
theorem Governs.lacks_textFunctions {machine : Machine} (h : discreet.Governs machine) :
    machine.Lacks Concat.textFunctions := by
  intro name hname
  constructor
  · apply Option.eq_none_iff_forall_ne_some.mpr
    intro host hhost
    rw [Concat.textFunctions_eq] at hname
    obtain ⟨builtin, -, rfl⟩ := List.mem_map.mp hname
    exact (h.hosts _ host hhost).1 builtin rfl
  · apply Option.eq_none_iff_forall_ne_some.mpr
    intro function hfunction
    have hreserved : ∀ other ∈ Concat.textFunctions, other ∈ Emit.reserved := by decide
    exact (h.functions name function hfunction).1 (hreserved name hname)

end Policy

namespace Eval.Keeps

variable {policy : Policy} {written : Set String} {good : Value → Prop} {ev : Expr → Eval Value}

/-- A property of the values of a run that keeps to the policy anyway. -/
theorem with_value {run : Eval Value} (h : Any policy written run)
    (hgood : ∀ {before value after}, policy.Governs before → run before = .ok value after →
      good value) : Keeps policy written good run := by
  constructor
  intro before outcome after hgoverns hrun
  obtain ⟨hkept, hallows⟩ := h.ends hgoverns hrun
  refine ⟨hkept, ?_⟩
  cases outcome with
  | ok value => exact hgood hgoverns hrun
  | error error => exact hallows.error

/-- A sequence has the value of its last part. -/
theorem sequence_last {items : List Expr} {e : Expr}
    (hitems : ∀ part ∈ items, Any policy written (ev part)) (he : Keeps policy written good (ev e))
    (start : Value) : Keeps policy written good (Eval.sequence ev start (items ++ [e])) := by
  rw [Expr.sequence_append]
  apply (sequence hitems start).bind
  exact fun _ _ => he.bind fun _ hgood => value hgood

theorem all_cons {fine : List Value → Prop} {e : Expr} {rest : List Expr}
    (he : Keeps policy written good (ev e))
    (hrest : Keeps policy written fine (Eval.all ev rest)) :
    Keeps policy written
      (fun values => ∃ first others, values = first :: others ∧ good first ∧ fine others)
      (Eval.all ev (e :: rest)) := by
  apply he.bind
  intro first hfirst
  apply hrest.bind
  intro others hothers
  exact value ⟨first, others, rfl, hfirst, hothers⟩

/-- Items that all have good values. -/
theorem all_values {items : List Expr} (h : ∀ e ∈ items, Keeps policy written good (ev e)) :
    Keeps policy written (fun values => ∀ value ∈ values, good value) (Eval.all ev items) := by
  induction items with
  | nil => exact value (List.forall_mem_nil _)
  | cons e rest ih =>
      rw [List.forall_mem_cons] at h
      apply (h.1.all_cons (ih h.2)).mono (Set.Subset.refl _)
      rintro _ ⟨first, others, rfl, hfirst, hothers⟩
      exact List.forall_mem_cons.mpr ⟨hfirst, hothers⟩

theorem literal (text : String) (fuel : Nat) :
    Keeps policy written (fun value => value = .str text) ((Expr.str text).evalWithin fuel) := by
  apply of_step
  intro _
  exact value rfl

end Eval.Keeps

/-- Calls of reserved functions are calls of builtins. -/
theorem Eval.Tracks.reserved {pre : Environment → Prop} {ev : Expr → Eval Value} {builtin : Builtin}
    (hname : builtin.name ∈ Emit.reserved) (args : List Value) :
    Tracks .discreet pre (fun value env => pre env ∧ builtin.apply args = .ok value)
      (Eval.apply ev builtin.name args) :=
  applied builtin args (fun hdefines => hdefines hname) fun hhosts => hhosts builtin rfl

namespace Expr

open Eval

/-- The names that authors may assign. -/
abbrev visible : Set String := Policy.discreet.writes

/-- Code that is discreet and has good values. -/
structure Shows (good : Value → Prop) (e : Expr) : Prop where
  obeys : e.Obeys .discreet visible
  gives : ∀ fuel, Keeps .discreet visible good (e.evalWithin fuel)

theorem obeys_call {policy : Policy} {written : Set String} {name : String}
    (hname : name ≠ "return") {args : List Expr} (h : ∀ arg ∈ args, arg.Obeys policy written) :
    (Expr.call name args).Obeys policy written :=
  .node (fun heq => absurd heq hname) h

theorem obeys_ident {policy : Policy} {written : Set String} (name : String) :
    (Expr.ident name).Obeys policy written :=
  .node trivial nofun

theorem obeys_str {policy : Policy} {written : Set String} (text : String) :
    (Expr.str text).Obeys policy written :=
  .node trivial nofun

theorem obeys_assign {policy : Policy} {written : Set String} {name : String}
    (hname : name ∈ written) {value : Expr} (h : value.Obeys policy written) :
    (Expr.assign name value).Obeys policy written :=
  .node hname ((forall_children_two rfl).mpr ⟨obeys_ident name, h⟩)

variable {good fine : Value → Prop} {e : Expr}

theorem Obeys.keeps {written : Set String} (h : e.Obeys .discreet written)
    (hsub : visible ⊆ written) (fuel : Nat) : Keeps.Any .discreet written (e.evalWithin fuel) :=
  Keeps.evalWithin fuel hsub h

theorem Shows.mono (h : e.Shows good) (himp : ∀ value, good value → fine value) :
    e.Shows fine :=
  ⟨h.obeys, fun fuel => (h.gives fuel).mono (Set.Subset.refl _) himp⟩

/-- What yields a text by its form has a text for its value. -/
theorem Obeys.keeps_text {written : Set String} (h : e.Obeys .discreet written)
    (hsub : visible ⊆ written) (htext : Concat.yieldsText e = true) (fuel : Nat) :
    Keeps .discreet written Value.IsText (e.evalWithin fuel) := by
  apply (h.keeps hsub fuel).with_value
  intro before value after hgoverns hrun
  obtain ⟨hkept, -⟩ := (h.keeps hsub fuel).ends hgoverns
    (hrun.trans (lift_ok value after).symm)
  exact Concat.exists_str_of_yieldsText htext hrun hkept.governs.lacks_textFunctions

theorem shows_text (h : e.Obeys .discreet visible) (htext : Concat.yieldsText e = true) :
    e.Shows Value.IsText :=
  ⟨h, h.keeps_text (Set.Subset.refl _) htext⟩

theorem shows_str (text : String) : (Expr.str text).Shows Value.IsText :=
  shows_text (obeys_str text) rfl

theorem shows_group {items : List Expr} (hitems : ∀ part ∈ items, part.Obeys .discreet visible)
    (h : e.Shows good) : (Expr.group (items ++ [e])).Shows good := by
  constructor
  · exact .node trivial (List.forall_mem_append.mpr ⟨hitems, by simpa using h.obeys⟩)
  · apply Keeps.of_step
    intro fuel
    exact Keeps.sequence_last (fun part hpart => (hitems part hpart).keeps (Set.Subset.refl _) fuel)
      (h.gives fuel) _

theorem shows_cond {branches : List (Expr × Expr)}
    (h : ∀ branch ∈ branches, branch.1.Obeys .discreet visible ∧ branch.2.Shows good)
    (he : e.Shows good) : (Expr.cond branches (some e)).Shows good := by
  constructor
  · refine .node trivial (forall_children_cond.mpr ⟨fun branch hbranch => ?_, ?_⟩)
    · exact ⟨(h branch hbranch).1, (h branch hbranch).2.obeys⟩
    · exact fun body hbody => Option.some.inj hbody ▸ he.obeys
  · apply Keeps.of_step
    intro fuel
    apply Keeps.branches _ _ nofun
    · exact fun branch hbranch => ⟨(h branch hbranch).1.keeps (Set.Subset.refl _) fuel,
        (h branch hbranch).2.gives fuel⟩
    · exact fun body hbody => Option.some.inj hbody ▸ he.gives fuel

/-- A block has the value that its statements have in its scope. -/
theorem shows_scope {declarations body : List Expr} (start : String → Value → Prop)
    (hvalues : ∀ left right, .binary .assign left right ∈ declarations →
      right.Obeys .discreet visible)
    (hbody : ∀ part ∈ body, part.Obeys .discreet (visible ∪ declared declarations))
    (hplain : ∀ name, .ident name ∈ declarations → start name (.symbol name))
    (hstarts : ∀ name right, .binary .assign (.ident name) right ∈ declarations → ∀ fuel,
      Keeps .discreet visible (start name) (right.evalWithin fuel))
    (h : ∀ fuel bindings, (∀ name ∈ declared declarations, name ∈ bindings.map Prod.fst) →
      (∀ binding ∈ bindings, start binding.1 binding.2) →
      Tracks .discreet (fun env => ∃ outer, env = Environment.under outer (.ofList bindings))
        (fun value _ => good value) (Eval.sequence (evalWithin fuel) (.bool false) body)) :
    (Expr.block declarations body).Shows good := by
  refine ⟨.block hvalues hbody, ?_⟩
  apply Keeps.of_step
  intro fuel
  apply (Keeps.locals start hplain fun name right hmem => hstarts name right hmem fuel).bind
  rintro bindings ⟨hbound, hstart⟩
  apply Keeps.caught _ False.elim
  have hsequence := Keeps.sequence (fun part hpart => (hbody part hpart).keeps
    Set.subset_union_left fuel) (.bool false)
  have hscope : Keeps.Any .discreet visible
      (inScope bindings (Eval.sequence (evalWithin fuel) (.bool false) body)) :=
    hsequence.within fun name hname => hname.imp_right (hbound name)
  apply hscope.with_value
  intro before value after hgoverns hrun
  obtain ⟨outcome, last, hinner⟩ := exists_eq_lift
    (Eval.sequence (evalWithin fuel) (.bool false) body
      { before with env := before.env.push.defineAll bindings })
  obtain ⟨rfl, -⟩ := lift_injective
    ((inScope_eq hinner).symm.trans (hrun.trans (lift_ok value after).symm))
  have hinside : Policy.discreet.Governs
      { before with env := before.env.push.defineAll bindings } := hgoverns.changed rfl rfl
  exact ((h fuel bindings hbound hstart).ends hinside
    ⟨before.env, Environment.push_defineAll before.env bindings⟩ hinner).2

/-- A block has the value of its last statement. -/
theorem shows_block {declarations body : List Expr}
    (hvalues : ∀ left right, .binary .assign left right ∈ declarations →
      right.Obeys .discreet visible)
    (hbody : ∀ part ∈ body, part.Obeys .discreet (visible ∪ declared declarations))
    (he : e.Obeys .discreet (visible ∪ declared declarations))
    (hgives : ∀ fuel, Keeps .discreet (visible ∪ declared declarations) good (e.evalWithin fuel)) :
    (Expr.block declarations (body ++ [e])).Shows good := by
  apply shows_scope (fun _ _ => True) hvalues
  · exact List.forall_mem_append.mpr ⟨hbody, by simpa using he⟩
  · exact fun _ _ => trivial
  · exact fun name right hmem => (hvalues _ right hmem).keeps (Set.Subset.refl _)
  · intro fuel bindings _ _
    apply Tracks.of_keeps
    exact Keeps.sequence_last (fun part hpart =>
      (hbody part hpart).keeps Set.subset_union_left fuel) (hgives fuel) _

theorem shows_list {items : List Expr} (hitems : ∀ item ∈ items, item.Obeys .discreet visible)
    (h : ∀ fuel, Keeps .discreet visible (fun values => good (.list values))
      (Eval.all (evalWithin fuel) items)) : (Expr.list items).Shows good := by
  refine ⟨.node trivial hitems, ?_⟩
  apply Keeps.of_step
  intro fuel
  exact (h fuel).bind fun _ hgood => .value hgood

/-- A tagged list is rendered item by item. -/
theorem shows_root {inside : Bool} {items : List Expr}
    (h : ∀ item ∈ items, item.Shows (Value.Renders inside)) :
    (Expr.list (.str rootTag :: items)).Shows (Value.Renders inside) := by
  apply shows_list
  · exact List.forall_mem_cons.mpr ⟨obeys_str rootTag, fun item hitem => (h item hitem).obeys⟩
  · intro fuel
    have hitems := Keeps.all_values fun item hitem => (h item hitem).gives fuel
    apply ((Keeps.literal rootTag fuel).all_cons hitems).mono (Set.Subset.refl _)
    rintro _ ⟨_, others, rfl, rfl, hothers⟩
    exact Value.renders_root hothers

/-- A marker with a text, an argument of any value and a body. -/
theorem shows_marker {tag text : String} {arg body : Expr} (harg : arg.Obeys .discreet visible)
    (hbody : body.Shows good)
    (hmarker : ∀ first last, good last → fine (.list [.str tag, .str text, first, last])) :
    (Expr.list [.str tag, .str text, arg, body]).Shows fine := by
  apply shows_list
  · simp only [List.forall_mem_cons]
    exact ⟨obeys_str tag, obeys_str text, harg, hbody.obeys, List.forall_mem_nil _⟩
  · intro fuel
    have hnil : Keeps .discreet visible (fun values => values = [])
        (Eval.all (evalWithin fuel) []) := .value rfl
    have hlast := (harg.keeps (Set.Subset.refl _) fuel).all_cons ((hbody.gives fuel).all_cons hnil)
    apply ((Keeps.literal tag fuel).all_cons ((Keeps.literal text fuel).all_cons hlast)).mono
      (Set.Subset.refl _)
    rintro _ ⟨_, _, rfl, rfl, _, _, rfl, rfl, first, _, rfl, -, last, _, rfl, hlast, rfl⟩
    exact hmarker first last hlast

/-- A marker with a text and a body. -/
theorem shows_wrapper {tag text : String} {body : Expr} (hbody : body.Shows good)
    (hmarker : ∀ last, good last → fine (.list [.str tag, .str text, last])) :
    (Expr.list [.str tag, .str text, body]).Shows fine := by
  apply shows_list
  · simp only [List.forall_mem_cons]
    exact ⟨obeys_str tag, obeys_str text, hbody.obeys, List.forall_mem_nil _⟩
  · intro fuel
    have hnil : Keeps .discreet visible (fun values => values = [])
        (Eval.all (evalWithin fuel) []) := .value rfl
    apply ((Keeps.literal tag fuel).all_cons ((Keeps.literal text fuel).all_cons
      ((hbody.gives fuel).all_cons hnil))).mono (Set.Subset.refl _)
    rintro _ ⟨_, _, rfl, rfl, _, _, rfl, rfl, last, _, rfl, hlast, rfl⟩
    exact hmarker last hlast

theorem shows_index : (Expr.list [.str "index"]).Shows (Value.Renders true) := by
  apply shows_list
  · simpa using obeys_str "index"
  · intro fuel
    have hnil : Keeps .discreet visible (fun values => values = [])
        (Eval.all (evalWithin fuel) []) := .value rfl
    apply ((Keeps.literal "index" fuel).all_cons hnil).mono (Set.Subset.refl _)
    rintro _ ⟨_, _, rfl, rfl, rfl⟩
    exact Value.renders_index

end Expr

namespace Emit

open SceneQuiz.Expr Eval

variable {good : Value → Prop}

theorem shows_localized (names : List String) {body : Expr} (h : body.Shows good) :
    (localized names body).Shows good := by
  unfold localized
  split
  · exact h
  · change (Expr.block (keepAll names) ([] ++ [body])).Shows good
    apply shows_block
    · intro left right hmem
      obtain ⟨name, -, heq⟩ := List.mem_map.mp hmem
      cases heq
      exact obeys_ident name
    · exact List.forall_mem_nil _
    · exact h.obeys.mono Set.subset_union_left
    · exact fun fuel => (h.gives fuel).mono Set.subset_union_left fun _ hgood => hgood

theorem shows_shown (injection : Injection) {e : Expr} (h : e.Obeys .discreet visible) :
    (shown injection e).Shows Value.IsText := by
  unfold shown
  split
  · apply shows_text _ rfl
    apply obeys_call (by decide)
    simp only [List.forall_mem_cons]
    exact ⟨h, obeys_str _, List.forall_mem_nil _⟩
  · apply shows_text _ rfl
    exact obeys_call (by decide) (by simpa using h)

/-- A result that is kept in a variable while a switch is turned back. -/
theorem shows_flagged {value : Expr} (flag : Bool) (h : value.Shows good) :
    (Expr.block [.assign "%_s" (.ident "simp"), .ident "%_r"]
      [.assign "simp" (.bool flag), .assign "%_r" value, .assign "simp" (.ident "%_s"),
        .ident "%_r"]).Shows good := by
  have hsimp : "simp" ∈ visible := (by decide : isHidden "simp" = false)
  have hresult : "%_r" ∉ visible := (by decide : ¬ isHidden "%_r" = false)
  have hset : (Expr.assign "simp" (.bool flag)).Obeys .discreet visible :=
    obeys_assign hsimp (.node trivial nofun)
  have hback : (Expr.assign "simp" (.ident "%_s")).Obeys .discreet visible :=
    obeys_assign hsimp (obeys_ident _)
  apply shows_scope fun _ _ => True
  · simp only [List.mem_cons, List.not_mem_nil, or_false]
    rintro left right (heq | heq)
    · cases heq
      exact obeys_ident "simp"
    · cases heq
  · simp only [List.forall_mem_cons]
    refine ⟨hset.mono Set.subset_union_left, ?_, hback.mono Set.subset_union_left,
      obeys_ident _, List.forall_mem_nil _⟩
    apply obeys_assign (.inr _) (h.obeys.mono Set.subset_union_left)
    simp [declared, declaredName?, parameterName?, asIdent?, Expr.assign]
  · exact fun _ _ => trivial
  · simp only [List.mem_cons, List.not_mem_nil, or_false]
    rintro name right (heq | heq)
    · cases heq
      exact (obeys_ident "simp").keeps (Set.Subset.refl _)
    · cases heq
  · intro fuel bindings _ _
    have hstored : ∀ fuel, Tracks .discreet (fun _ => True)
        (fun _ env => Holds good (env.column "%_r")) ((Expr.assign "%_r" value).evalWithin fuel) := by
      apply Tracks.of_step
      intro fuel
      apply (Tracks.of_keeps (h.gives fuel)).bind
      intro found
      apply (Tracks.assigned_holds "%_r" fun _ hgood => hgood).bind
      exact fun _ => .value fun _ hholds => hholds
    have hread : ∀ fuel, Tracks .discreet (fun env => Holds good (env.column "%_r"))
        (fun result _ => good result) ((Expr.ident "%_r").evalWithin fuel) := by
      apply Tracks.of_step
      intro fuel
      exact (Tracks.read "%_r" fun _ hholds => hholds).imp fun _ _ hboth => hboth.2
    apply (Tracks.of_keeps (hset.keeps (Set.Subset.refl _) fuel)).bind
    intro _
    apply (hstored fuel).bind
    intro _
    apply ((Tracks.frame (hback.keeps (Set.Subset.refl _) fuel) hresult (Holds good)).imp
      fun _ _ hboth => hboth.2).bind
    intro _
    exact (hread fuel).bind fun _ => .value fun _ hgood => hgood

theorem shows_injection {injection : Injection} (h : injection.expr.Obeys .discreet visible) :
    (Emit.injection injection).Shows Value.IsText := by
  have hvalue : (unflagged injection).Shows Value.IsText := by
    unfold unflagged
    split
    · next key _ =>
        change (Expr.group ([injection.expr] ++ [_])).Shows Value.IsText
        exact shows_group (by simpa using h) (shows_shown injection (obeys_ident key))
    · exact shows_shown injection h
  rw [injection_eq]
  split
  · exact hvalue
  · exact shows_flagged _ hvalue

theorem shows_definitions {pairs : List (String × Expr)}
    (h : ∀ pair ∈ pairs, pair.1 ∈ visible ∧ pair.2.Obeys .discreet visible) :
    (definitions pairs).Shows Value.IsText := by
  unfold definitions
  split
  · exact shows_str ""
  · apply shows_group _ (shows_str "")
    exact List.forall_mem_map.mpr fun pair hpair => obeys_assign (h pair hpair).1 (h pair hpair).2

theorem shows_conditional {branches : List (Expr × Expr)} {otherwise : Expr}
    (h : ∀ branch ∈ branches, branch.1.Obeys .discreet visible ∧ branch.2.Shows good)
    (hotherwise : otherwise.Shows good) : (conditional branches otherwise).Shows good := by
  unfold conditional
  split
  · exact hotherwise
  · exact shows_cond h hotherwise

end Emit

end SceneQuiz
