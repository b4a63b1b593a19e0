import SceneQuiz.Proofs.Template.Shown
/-!
The values of loops.  A flat loop joins what its rounds gave.  Any other loop
collects it in its output variable, which nothing but the loop itself assigns,
and gives it tagged, to be rendered item by item.
-/

namespace SceneQuiz

namespace Emit

open SceneQuiz.Expr Eval

theorem loopOutput_notMem_visible (n : Nat) : loopOutput n ∉ visible := by
  change ¬ isHidden (loopOutput n) = false
  simp [isHidden, loopOutput, loopStem]

theorem loopIndex_ne_loopOutput (n : Nat) : loopIndex n ≠ loopOutput n := by
  intro heq
  have hlast := congrArg String.toList heq
  simp [loopIndex, loopOutput] at hlast

theorem loopList_ne_loopOutput (n i : Nat) : loopList n i ≠ loopOutput n := by
  intro heq
  have hrest := congrArg String.toList heq
  simp [loopList, loopOutput] at hrest

section Pieces

variable {policy : Policy} {written : Set String} {n : Nat} {iterators : List (String × Expr)}

theorem obeys_loopListed {count : Nat} (h : ∀ i < count, loopList n (i + 1) ∈ written) :
    ∀ e ∈ loopListed n count, e.Obeys policy written := by
  refine List.forall_mem_map.mpr fun i hi => ?_
  apply obeys_assign (h i (List.mem_range.mp hi))
  refine .node trivial (forall_children_cond.mpr ⟨?_, ?_⟩)
  · simp only [List.forall_mem_cons]
    exact ⟨⟨obeys_call (by decide) (by simpa using obeys_ident _),
      obeys_call (by decide) (by simpa using obeys_ident _)⟩, List.forall_mem_nil _⟩
  · exact fun e he => Option.some.inj he ▸ obeys_ident _

theorem obeys_loopCount (count : Nat) : (loopCount n count).Obeys policy written := by
  apply obeys_call (by decide)
  refine List.forall_mem_map.mpr fun i _ => ?_
  exact obeys_call (by decide) (by simpa using obeys_ident _)

theorem obeys_loopMembers (h : ∀ iterator ∈ iterators, iterator.1 ∈ written) :
    ∀ e ∈ loopMembers n iterators, e.Obeys policy written := by
  intro e he
  obtain ⟨i, hi, rfl⟩ := List.mem_mapIdx.mp he
  apply obeys_assign (h _ (List.getElem_mem hi))
  exact .node trivial (forall_children_index.mpr ⟨obeys_ident _, by simpa using obeys_ident _⟩)

theorem obeys_loopRound {body : Expr} (houtput : loopOutput n ∈ written)
    (h : ∀ iterator ∈ iterators, iterator.1 ∈ written) (hbody : body.Obeys policy written) :
    (loopRound n iterators body).Obeys policy written := by
  refine .node trivial (List.forall_mem_append.mpr ⟨obeys_loopMembers h, ?_⟩)
  rw [List.forall_mem_singleton]
  apply obeys_assign houtput
  exact obeys_call (by decide) (by simpa using ⟨hbody, obeys_ident _⟩)

theorem obeys_loopResult (isFlat : Bool) : (loopResult n isFlat).Obeys policy written := by
  unfold loopResult
  split
  · exact obeys_call (by decide) (by simpa using obeys_ident _)
  · have htag : (Expr.list [.str rootTag]).Obeys policy written :=
      .node trivial (List.forall_mem_singleton.mpr (obeys_str rootTag))
    apply obeys_call (by decide)
    simp only [List.forall_mem_cons]
    exact ⟨htag, obeys_ident _, List.forall_mem_nil _⟩

/-- The locals of a loop that start with a value. -/
theorem assigned_loopLocals {left right : Expr}
    (h : .binary .assign left right ∈ loopLocals n iterators) :
    (∃ i, left = .ident (loopList n i) ∧ ∃ iterator ∈ iterators, right = iterator.2) ∨
      left = .ident (loopOutput n) ∧ right = .list [] := by
  simp only [loopLocals, loopSources, List.mem_append, List.mem_cons, List.not_mem_nil,
    List.mem_mapIdx, List.mem_map, or_false] at h
  rcases h with (⟨i, hi, heq⟩ | heq | heq) | ⟨iterator, -, heq⟩
  · cases heq
    exact .inl ⟨i + 1, rfl, _, List.getElem_mem hi, rfl⟩
  · cases heq
    exact .inr ⟨rfl, rfl⟩
  · cases heq
  · cases heq

/-- The other locals of a loop. -/
theorem plain_loopLocals {name : String} (h : .ident name ∈ loopLocals n iterators) :
    name = loopIndex n ∨ ∃ iterator ∈ iterators, name = iterator.1 := by
  simp only [loopLocals, loopSources, List.mem_append, List.mem_cons, List.not_mem_nil,
    List.mem_mapIdx, List.mem_map, or_false] at h
  rcases h with (⟨i, hi, heq⟩ | heq | heq) | ⟨iterator, hmem, heq⟩
  · cases heq
  · cases heq
  · cases heq
    exact .inl rfl
  · cases heq
    exact .inr ⟨iterator, hmem, rfl⟩

theorem loopList_mem_declared {i : Nat} (hi : i < iterators.length) :
    loopList n (i + 1) ∈ declared (loopLocals n iterators) := by
  apply List.mem_filterMap.mpr
  refine ⟨Expr.assign (loopList n (i + 1)) iterators[i].2, ?_, rfl⟩
  simp only [loopLocals, loopSources, List.mem_append]
  exact .inl (.inl (List.mem_mapIdx.mpr ⟨i, hi, rfl⟩))

theorem loopOutput_mem_declared : loopOutput n ∈ declared (loopLocals n iterators) := by
  apply List.mem_filterMap.mpr
  exact ⟨Expr.assign (loopOutput n) (.list []), by simp [loopLocals], rfl⟩

theorem iterator_mem_declared {iterator : String × Expr} (h : iterator ∈ iterators) :
    iterator.1 ∈ declared (loopLocals n iterators) := by
  apply List.mem_filterMap.mpr
  refine ⟨.ident iterator.1, ?_, rfl⟩
  simp only [loopLocals, List.mem_append]
  exact .inr (List.mem_map_of_mem h)

end Pieces

variable {policy : Policy} {n : Nat} {iterators : List (String × Expr)} {body : Expr}
  {good : Value → Prop}

/-- The locals of a loop are declared around its rounds. -/
theorem obeys_loopRounds (hbody : body.Obeys policy visible) :
    (loopRounds n iterators body).Obeys policy
      (visible ∪ declared (loopLocals n iterators)) := by
  have hone : (Expr.int 1).Obeys policy (visible ∪ declared (loopLocals n iterators)) :=
    .node trivial nofun
  refine .forRange hone nofun (obeys_loopCount _) ?_
  apply obeys_loopRound
  · exact .inr (.inr loopOutput_mem_declared)
  · exact fun iterator hmem => .inr (.inr (iterator_mem_declared hmem))
  · exact hbody.mono (Set.subset_union_left.trans (Set.subset_insert _ _))

theorem obeys_loopValues
    (h : ∀ iterator ∈ iterators, iterator.2.Obeys policy visible) {left right : Expr}
    (hmem : .binary .assign left right ∈ loopLocals n iterators) :
    right.Obeys policy visible := by
  rcases assigned_loopLocals hmem with ⟨_, -, iterator, hiterator, rfl⟩ | ⟨-, rfl⟩
  · exact h iterator hiterator
  · exact .node trivial nofun

theorem obeys_loopBody (n : Nat) (iterators : List (String × Expr)) (isFlat : Bool)
    (hbody : body.Obeys policy visible) :
    ∀ part ∈ loopListed n iterators.length ++ [loopRounds n iterators body, loopResult n isFlat],
      part.Obeys policy (visible ∪ declared (loopLocals n iterators)) := by
  simp only [List.forall_mem_append, List.forall_mem_cons]
  exact ⟨obeys_loopListed fun i hi => .inr (loopList_mem_declared hi),
    obeys_loopRounds hbody, obeys_loopResult isFlat, List.forall_mem_nil _⟩

theorem obeys_loop (isFlat : Bool)
    (h : ∀ iterator ∈ iterators, iterator.2.Obeys policy visible)
    (hbody : body.Obeys policy visible) :
    (loop n iterators isFlat body).Obeys policy visible := by
  rw [loop_eq]
  exact .block (fun left right hmem => obeys_loopValues h hmem)
    (obeys_loopBody n iterators isFlat hbody)

/-- A flat loop joins what it collected. -/
theorem shows_flatLoop (h : ∀ iterator ∈ iterators, iterator.2.Obeys .discreet visible)
    (hbody : body.Obeys .discreet visible) : (loop n iterators true body).Shows Value.IsText := by
  have hparts := obeys_loopBody n iterators true hbody
  rw [List.append_cons, List.forall_mem_append] at hparts
  rw [loop_eq, List.append_cons]
  apply shows_block _ hparts.1 (obeys_loopResult true)
  · exact (obeys_loopResult true).keeps_text Set.subset_union_left rfl
  · exact fun left right hmem => obeys_loopValues h hmem

/-- The output of a loop is the only helper variable that has to be watched. -/
theorem visible_subset_compl : visible ⊆ {loopOutput n}ᶜ := by
  rintro name hname rfl
  exact loopOutput_notMem_visible n hname

/-- The output is read as a list of good values. -/
theorem tracks_loopOutput {pre : Environment → Prop} {depth : Nat} (fuel : Nat)
    (h : ∀ env, pre env → Collected good depth (env.column (loopOutput n))) :
    Tracks .discreet pre
      (fun found env => pre env ∧ ∃ values, found = .list values ∧ ∀ value ∈ values, good value)
      ((Expr.ident (loopOutput n)).evalWithin fuel) := by
  revert fuel
  apply Tracks.of_step
  intro fuel
  exact Tracks.read (loopOutput n) fun env hpre => (h env hpre).holds

/-- What is collected is collected at the end of the output. -/
theorem tracks_loopCollect (hbody : body.Shows good) (depth fuel : Nat) :
    Tracks .discreet (fun env => Collected good depth (env.column (loopOutput n)))
      (fun _ env => Collected good depth (env.column (loopOutput n)))
      ((loopCollect n body).evalWithin fuel) := by
  have hvalue : ∀ fuel, Tracks .discreet
      (fun env => Collected good depth (env.column (loopOutput n)))
      (fun found env => Collected good depth (env.column (loopOutput n)) ∧
        ∃ values, found = .list values ∧ ∀ value ∈ values, good value)
      ((Expr.call "endcons" [body, .ident (loopOutput n)]).evalWithin fuel) := by
    apply Tracks.of_step
    intro fuel
    have hargs : Tracks .discreet
        (fun env => Collected good depth (env.column (loopOutput n)))
        (fun args env => Collected good depth (env.column (loopOutput n)) ∧
          ∃ value values, args = [value, .list values] ∧ good value ∧ ∀ value ∈ values, good value)
        (Eval.all (evalWithin fuel) [body, .ident (loopOutput n)]) := by
      apply (Tracks.frame (hbody.gives fuel) (loopOutput_notMem_visible n)
        (Collected good depth)).all_cons
      intro value
      apply Tracks.all_cons (tracks_loopOutput fuel fun _ hboth => hboth.2)
      intro found
      apply Tracks.value
      rintro env ⟨⟨hgood, hcollected⟩, values, rfl, hvalues⟩
      exact ⟨hcollected, value, values, rfl, hgood, hvalues⟩
    apply hargs.bind
    intro args
    apply (Tracks.reserved (by decide : Builtin.endcons.name ∈ reserved) args).imp
    rintro found env ⟨⟨hcollected, value, values, rfl, hgood, hvalues⟩, happly⟩
    refine ⟨hcollected, values ++ [value], (Except.ok.inj happly).symm, ?_⟩
    exact List.forall_mem_append.mpr ⟨hvalues, List.forall_mem_singleton.mpr hgood⟩
  revert fuel
  apply Tracks.of_step
  intro fuel
  apply (hvalue fuel).bind
  intro found
  apply (Tracks.assigned (loopOutput n) found).bind
  intro _
  apply Tracks.value
  rintro _ ⟨env, ⟨hcollected, values, rfl, hgood⟩, rfl⟩
  apply hcollected.reassigned (env.reassigned_assign _ _) _ hgood
  rw [← Environment.get?_eq_column, Environment.get?_assign_self]

/-- One round adds a good value to the output. -/
theorem tracks_loopRound (hiterators : ∀ iterator ∈ iterators, iterator.1 ∈ visible)
    (hbody : body.Shows good) (depth fuel : Nat) :
    Tracks .discreet (fun env => Collected good depth (env.column (loopOutput n)))
      (fun _ env => Collected good depth (env.column (loopOutput n)))
      ((loopRound n iterators body).evalWithin fuel) := by
  revert fuel
  apply Tracks.of_step
  intro fuel
  have hmembers : ∀ e ∈ loopMembers n iterators, e.Obeys .discreet visible :=
    obeys_loopMembers hiterators
  have hfirst := Keeps.sequence
    (fun e he => (hmembers e he).keeps (Set.Subset.refl _) fuel) (.bool false)
  change Tracks _ _ _ (Eval.sequence (evalWithin fuel) (.bool false) (_ ++ [_]))
  rw [Expr.sequence_append]
  apply ((Tracks.frame hfirst (loopOutput_notMem_visible n) (Collected good depth)).imp
    fun _ _ hboth => hboth.2).bind
  intro _
  exact (tracks_loopCollect hbody depth fuel).bind fun _ => .value fun _ hcollected => hcollected

theorem tracks_loopRounds (hiterators : ∀ iterator ∈ iterators, iterator.1 ∈ visible)
    (hbody : body.Shows good) (fuel : Nat) :
    Tracks .discreet (fun env => Collected good 0 (env.column (loopOutput n)))
      (fun _ env => Collected good 0 (env.column (loopOutput n)))
      ((loopRounds n iterators body).evalWithin fuel) := by
  revert fuel
  apply Tracks.of_step
  intro fuel
  have hone : (Expr.int 1).Obeys .discreet visible := .node trivial nofun
  have hcount : (loopCount n iterators.length).Obeys .discreet visible := obeys_loopCount _
  have hrange : Keeps.Any .discreet visible
      (rangeOf (evalWithin fuel) (.int 1) none (loopCount n iterators.length)) :=
    Keeps.inherited.rangeOf (hone.keeps (Set.Subset.refl _) fuel) nofun
      (hcount.keeps (Set.Subset.refl _) fuel)
  apply ((Tracks.frame hrange (loopOutput_notMem_visible n) (Collected good 0)).imp
    fun _ _ hboth => hboth.2).bind
  intro values
  exact Tracks.loop (loopIndex_ne_loopOutput n).symm (tracks_loopRound hiterators hbody 1 fuel)
    values

/-- What was collected is rendered item by item. -/
theorem tracks_loopResult (inside : Bool) (fuel : Nat) :
    Tracks .discreet
      (fun env => Collected (Value.Renders inside) 0 (env.column (loopOutput n)))
      (fun value _ => value.Renders inside) ((loopResult n false).evalWithin fuel) := by
  revert fuel
  apply Tracks.of_step
  intro fuel
  have htag : ∀ fuel, Keeps .discreet visible (fun value => value = .list [.str rootTag])
      ((Expr.list [.str rootTag]).evalWithin fuel) := by
    apply Keeps.of_step
    intro fuel
    apply ((Keeps.literal rootTag fuel).all_cons (.value rfl : Keeps .discreet visible
      (fun values => values = []) (Eval.all (evalWithin fuel) []))).bind
    rintro _ ⟨_, _, rfl, rfl, rfl⟩
    exact .value rfl
  have hargs : Tracks .discreet
      (fun env => Collected (Value.Renders inside) 0 (env.column (loopOutput n)))
      (fun args _ => ∃ values, args = [.list [.str rootTag], .list values] ∧
        ∀ value ∈ values, value.Renders inside)
      (Eval.all (evalWithin fuel) [.list [.str rootTag], .ident (loopOutput n)]) := by
    apply (Tracks.frame (htag fuel) (loopOutput_notMem_visible n)
      (Collected (Value.Renders inside) 0)).all_cons
    intro value
    apply Tracks.all_cons (tracks_loopOutput fuel fun _ hboth => hboth.2)
    intro found
    apply Tracks.value
    rintro env ⟨⟨rfl, -⟩, values, rfl, hvalues⟩
    exact ⟨values, rfl, hvalues⟩
  apply hargs.bind
  intro args
  apply (Tracks.reserved (by decide : Builtin.append.name ∈ reserved) args).imp
  rintro found env ⟨⟨values, rfl, hvalues⟩, happly⟩
  have hfound : .list (.str rootTag :: ([values].flatten)) = found := Except.ok.inj happly
  rw [← hfound, List.flatten_singleton]
  exact Value.renders_root hvalues

/-- A loop that is not flat is rendered round by round. -/
theorem shows_renderedLoop {inside : Bool}
    (h : ∀ iterator ∈ iterators, iterator.1 ∈ visible ∧ iterator.2.Obeys .discreet visible)
    (hbody : body.Shows (Value.Renders inside)) :
    (loop n iterators false body).Shows (Value.Renders inside) := by
  rw [loop_eq]
  apply shows_scope fun name value => name = loopOutput n → value = .list []
  · exact fun left right hmem => obeys_loopValues (fun iterator hit => (h iterator hit).2) hmem
  · exact obeys_loopBody n iterators false hbody.obeys
  · intro name hmem heq
    rcases plain_loopLocals hmem with rfl | ⟨iterator, hiterator, rfl⟩
    · exact absurd heq (loopIndex_ne_loopOutput n)
    · exact absurd (heq ▸ (h iterator hiterator).1) (loopOutput_notMem_visible n)
  · intro name right hmem fuel
    rcases assigned_loopLocals hmem with ⟨i, heq, iterator, hiterator, rfl⟩ | ⟨-, rfl⟩
    · apply ((h iterator hiterator).2.keeps (Set.Subset.refl _) fuel).mono (Set.Subset.refl _)
      rintro _ - rfl
      exact absurd (Expr.ident.inj heq).symm (loopList_ne_loopOutput n i)
    · revert fuel
      apply Keeps.of_step
      intro fuel
      exact .value fun _ => rfl
  · intro fuel bindings hbound hstart
    have hlisted : ∀ e ∈ loopListed n iterators.length,
        e.Obeys .discreet {loopOutput n}ᶜ :=
      obeys_loopListed fun i _ => loopList_ne_loopOutput n (i + 1)
    have hfirst := Keeps.sequence
      (fun e he => (hlisted e he).keeps visible_subset_compl fuel) (.bool false)
    rw [Expr.sequence_append]
    apply Tracks.bind (((Tracks.frame hfirst (not_not_intro rfl)
      (Collected (Value.Renders inside) 0)).imp fun _ _ hboth => hboth.2).weaken _)
    · intro _
      apply (tracks_loopRounds (fun iterator hmem => (h iterator hmem).1) hbody fuel).bind
      intro _
      exact (tracks_loopResult inside fuel).bind fun _ => .value fun _ hgood => hgood
    · rintro _ ⟨outer, rfl⟩
      refine ⟨[], outer.column (loopOutput n), ?_, List.forall_mem_nil _⟩
      rw [Environment.column_under, NameMap.get?_ofList_of_forall
        (hbound _ loopOutput_mem_declared) hstart]
      rfl

end Emit

end SceneQuiz
