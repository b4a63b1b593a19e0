import SceneQuiz.Proofs.Machine.Deeper
import SceneQuiz.Proofs.Template.Discreet
import SceneQuiz.Proofs.Template.LoopValue
/-!
Code of blocks is tidy if what the author wrote is: it defines no function, and
it assigns helper variables only where it declares them.  So what a block leaves
of the variables outside is what the author assigned.  The helper variables of a
loop are its own: the code of its body does not mention them.
-/

namespace SceneQuiz

namespace Policy

/-- No helper variable is assigned, no function is defined, and outside functions
hide no builtin. -/
def tidy : Policy := { discreet with defines := ∅, returns := True }

theorem governs_tidy_iff {machine : Machine} : tidy.Governs machine ↔ machine.Bare := by
  constructor
  · intro h
    have hnone : ∀ name, machine.functions.get? name = none := fun name =>
      Option.eq_none_iff_forall_ne_some.mpr fun function hfunction =>
        (h.functions name function hfunction).1
    refine ⟨fun builtin => ⟨?_, hnone builtin.name⟩, hnone⟩
    exact Option.eq_none_iff_forall_ne_some.mpr fun host hhost =>
      (h.hosts builtin.name host hhost).1 builtin rfl
  · rintro ⟨hbuiltins, hnone⟩
    constructor
    · intro name function hfunction
      rw [hnone name] at hfunction
      cases hfunction
    · intro name host hhost
      refine ⟨?_, .inl trivial⟩
      rintro builtin rfl
      rw [(hbuiltins builtin).1] at hhost
      cases hhost

end Policy

namespace Expr

/-- What an author may write: no function is made, no `return` is used, and no
name is kept for helper variables. -/
def Tidy (e : Expr) : Prop :=
  e.Everywhere fun part => part.isDiscreet = true ∧ part.makesFunction = false

instance (e : Expr) : Decidable e.Tidy :=
  inferInstanceAs
    (Decidable (e.Everywhere fun part => part.isDiscreet = true ∧ part.makesFunction = false))

/-- By induction on the parts. -/
theorem Tidy.obeys {e : Expr} (h : e.Tidy) : e.Obeys .tidy visible := by
  induction e using Expr.ofParts with
  | hstep e ih =>
    refine .node ?_ fun part hpart => ih part hpart (h.inside hpart)
    cases e with
    | call name args => exact fun _ => trivial
    | binary op left right =>
        cases op with
        | assign =>
            apply permits_assign.mpr
            rintro name rfl
            have hname := (h.inside (by simp [children] : Expr.ident name ∈ _)).here.1
            exact (by simpa [isDiscreet] using hname : isHidden name = false)
        | define => exact absurd h.here.2 (by simp [makesFunction])
        | _ => trivial
    | _ => trivial

end Expr

namespace Emit

open SceneQuiz.Expr

variable {policy : Policy}

theorem obeys_shown (injection : Injection) {e : Expr} (h : e.Obeys policy visible) :
    (shown injection e).Obeys policy visible := by
  unfold shown
  split
  · exact obeys_call (by decide) (List.forall_mem_cons.mpr ⟨h, by simpa using obeys_str _⟩)
  · exact obeys_call (by decide) (by simpa using h)

/-- Where a switch is turned back, its value is kept in a local. -/
theorem obeys_flagged (flag : Bool) {value : Expr} (h : value.Obeys policy visible) :
    (Expr.flagged flag value).Obeys policy visible := by
  have hsimp : "simp" ∈ visible := (by decide : isHidden "simp" = false)
  have hset : (Expr.bool flag).Obeys policy visible := .node trivial nofun
  apply Obeys.block
  · simp only [List.mem_cons, List.not_mem_nil, or_false]
    rintro left right (heq | heq)
    · cases heq
      exact obeys_ident "simp"
    · cases heq
  · simp only [List.forall_mem_cons]
    refine ⟨(obeys_assign hsimp hset).mono Set.subset_union_left, ?_,
      obeys_assign (.inl hsimp) (obeys_ident _), obeys_ident _, List.forall_mem_nil _⟩
    apply obeys_assign (.inr _) (h.mono Set.subset_union_left)
    simp [declared, declaredName?, parameterName?, asIdent?, Expr.assign]

theorem obeys_injection {injection : Injection} (h : injection.expr.Obeys policy visible) :
    (Emit.injection injection).Obeys policy visible := by
  have hvalue : (unflagged injection).Obeys policy visible := by
    unfold unflagged
    split
    · next key _ =>
        have hkey : (Expr.ident key).Obeys policy visible := obeys_ident key
        have hshown := obeys_shown injection hkey
        exact .node trivial (List.forall_mem_cons.mpr ⟨h, by simpa using hshown⟩)
    · exact obeys_shown injection h
  rw [injection_eq]
  split
  · exact hvalue
  · exact obeys_flagged _ hvalue

theorem obeys_definitions {pairs : List (String × Expr)}
    (h : ∀ pair ∈ pairs, pair.1 ∈ visible ∧ pair.2.Obeys policy visible) :
    (definitions pairs).Obeys policy visible := by
  unfold definitions
  split
  · exact obeys_str ""
  · refine .node trivial (List.forall_mem_append.mpr ⟨List.forall_mem_map.mpr ?_, ?_⟩)
    · exact fun pair hpair => obeys_assign (h pair hpair).1 (h pair hpair).2
    · simpa using obeys_str ""

theorem obeys_conditional {branches : List (Expr × Expr)} {otherwise : Expr}
    (h : ∀ branch ∈ branches, branch.1.Obeys policy visible ∧ branch.2.Obeys policy visible)
    (hotherwise : otherwise.Obeys policy visible) :
    (conditional branches otherwise).Obeys policy visible := by
  unfold conditional
  split
  · exact hotherwise
  · exact .node trivial
      (forall_children_cond.mpr ⟨h, fun body hbody => Option.some.inj hbody ▸ hotherwise⟩)

/-- What is rendered, be it tagged or in one text. -/
theorem obeys_tagged (tag : String) {items : List Expr} (h : ∀ e ∈ items, e.Obeys policy visible) :
    (Expr.list (.str tag :: items)).Obeys policy visible :=
  .node trivial (List.forall_mem_cons.mpr ⟨obeys_str tag, h⟩)

theorem obeys_container (blocks : List Block) (isFlat : Bool) {parts : List Expr}
    (h : ∀ e ∈ parts, e.Obeys policy visible) :
    (container blocks isFlat parts).Obeys policy visible := by
  apply obeys_localized
  apply Obeys.mono _ Set.subset_union_left
  split
  · exact obeys_call (by decide) h
  · exact obeys_tagged rootTag h

end Emit

section Code

variable {policy : Policy}

mutual

/-- The code of a block obeys what the author obeys, by its cases. -/
theorem Block.obeys_codeAfter (loops : Nat) (block : Block)
    (hauthored : ∀ e ∈ block.authored, e.Obeys policy Expr.visible)
    (hbinders : ∀ name ∈ block.binders, name ∈ Expr.visible) :
    (block.codeAfter loops).Obeys policy Expr.visible :=
  match block with
  | .container items =>
      Emit.obeys_container items _ (Block.obeys_codeOfAll loops items hauthored hbinders)
  | .text content => Expr.obeys_str content
  | .inject injection => Emit.obeys_injection (hauthored _ List.mem_cons_self)
  | .define pairs => Emit.obeys_definitions fun _ hpair =>
      ⟨hbinders _ (List.mem_map_of_mem hpair), hauthored _ (List.mem_map_of_mem hpair)⟩
  | .cond branches otherwise => by
      unfold Block.authored at hauthored
      unfold Block.binders at hbinders
      rw [List.forall_mem_append] at hauthored hbinders
      unfold Block.codeAfter
      apply Emit.obeys_conditional
        (Block.obeys_codeOfBranches loops branches hauthored.1 hbinders.1)
      cases otherwise with
      | some body => exact Block.obeys_codeAfter _ body hauthored.2 hbinders.2
      | none => exact Expr.obeys_str ""
  | .foreach iterators body => by
      rw [Block.authored, List.forall_mem_append] at hauthored
      rw [Block.binders, List.forall_mem_append] at hbinders
      apply Emit.obeys_loop body.isFlat (List.forall_mem_map.mp hauthored.1)
      exact Block.obeys_codeAfter (loops + 1) body hauthored.2 hbinders.2
  | .indexing style start body => by
      rw [Block.authored, List.forall_mem_cons] at hauthored
      have hbody := Block.obeys_codeAfter loops body hauthored.2 hbinders
      apply Emit.obeys_tagged
      simp only [List.forall_mem_cons]
      exact ⟨Expr.obeys_str _, hauthored.1, hbody, List.forall_mem_nil _⟩
  | .index => Emit.obeys_tagged "index" (List.forall_mem_nil _)
  | .reveal input value body => by
      rw [Block.authored, List.forall_mem_cons] at hauthored
      have hbody := Block.obeys_codeAfter loops body hauthored.2 hbinders
      apply Emit.obeys_tagged
      simp only [List.forall_mem_cons]
      exact ⟨Expr.obeys_str _, hauthored.1, hbody, List.forall_mem_nil _⟩
  | .lang codes body => by
      have hbody := Block.obeys_codeAfter loops body hauthored hbinders
      apply Emit.obeys_tagged
      simp only [List.forall_mem_cons]
      exact ⟨Expr.obeys_str _, hbody, List.forall_mem_nil _⟩
termination_by structural block

theorem Block.obeys_codeOfAll (loops : Nat) (blocks : List Block)
    (hauthored : ∀ e ∈ Block.authoredOfAll blocks, e.Obeys policy Expr.visible)
    (hbinders : ∀ name ∈ Block.bindersOfAll blocks, name ∈ Expr.visible) :
    ∀ e ∈ Block.codeOfAll loops blocks, e.Obeys policy Expr.visible :=
  match blocks with
  | [] => List.forall_mem_nil _
  | block :: rest => by
      rw [Block.authoredOfAll, List.forall_mem_append] at hauthored
      rw [Block.bindersOfAll, List.forall_mem_append] at hbinders
      exact List.forall_mem_cons.mpr ⟨Block.obeys_codeAfter loops block hauthored.1 hbinders.1,
        Block.obeys_codeOfAll _ rest hauthored.2 hbinders.2⟩
termination_by structural blocks

theorem Block.obeys_codeOfBranches (loops : Nat) (branches : List (Expr × Block))
    (hauthored : ∀ e ∈ Block.authoredOfBranches branches, e.Obeys policy Expr.visible)
    (hbinders : ∀ name ∈ Block.bindersOfBranches branches, name ∈ Expr.visible) :
    ∀ branch ∈ Block.codeOfBranches loops branches,
      branch.1.Obeys policy Expr.visible ∧ branch.2.Obeys policy Expr.visible :=
  match branches with
  | [] => List.forall_mem_nil _
  | (test, body) :: rest => by
      rw [Block.authoredOfBranches, List.cons_append, List.forall_mem_cons,
        List.forall_mem_append] at hauthored
      rw [Block.bindersOfBranches, List.forall_mem_append] at hbinders
      have hbody := Block.obeys_codeAfter loops body hauthored.2.1 hbinders.1
      exact List.forall_mem_cons.mpr ⟨⟨hauthored.1, hbody⟩,
        Block.obeys_codeOfBranches _ rest hauthored.2.2 hbinders.2⟩
termination_by structural branches

end

end Code

namespace Emit

open SceneQuiz.Expr

/-- Is this a name of a helper variable of the `n`-th loop? -/
def IsHelper (n : Nat) (name : String) : Prop :=
  ∃ rest, name.toList = "%_fe".toList ++ (Nat.toDigits 10 n ++ '_' :: rest)

variable {m n : Nat} {name : String}

theorem isHelper_loopIndex (n : Nat) : IsHelper n (loopIndex n) :=
  ⟨['i'], by simp [loopIndex, loopStem]⟩

theorem isHelper_loopOutput (n : Nat) : IsHelper n (loopOutput n) :=
  ⟨['o'], by simp [loopOutput, loopStem]⟩

theorem isHelper_loopList (n i : Nat) : IsHelper n (loopList n i) :=
  ⟨'l' :: Nat.toDigits 10 i, by simp [loopList, loopStem]⟩

theorem IsHelper.isHidden (h : IsHelper n name) : isHidden name = true := by
  obtain ⟨rest, hname⟩ := h
  simp [SceneQuiz.isHidden, hname]

/-- No author can use a name of a helper variable. -/
theorem IsHelper.not_mem {names : List String} (h : IsHelper n name)
    (hnames : ∀ name ∈ names, SceneQuiz.isHidden name = false) : name ∉ names := by
  intro hmem
  exact absurd h.isHidden (by simp [hnames name hmem])

theorem takeWhile_toDigits (n : Nat) (rest : List Char) :
    (Nat.toDigits 10 n ++ '_' :: rest).takeWhile (· != '_') = Nat.toDigits 10 n := by
  have hdigits : ∀ c ∈ Nat.toDigits 10 n, (c != '_') = true := by
    intro c hc
    have hdigit := Nat.isDigit_of_mem_toDigits (by omega) (by omega) hc
    rw [bne_iff_ne]
    rintro rfl
    exact absurd hdigit (by decide)
  rw [List.takeWhile_append_of_pos hdigits]
  simp

/-- Two loops share no helper variable. -/
theorem IsHelper.unique (hfirst : IsHelper m name) (hsecond : IsHelper n name) : m = n := by
  obtain ⟨rest, hname⟩ := hfirst
  obtain ⟨other, hother⟩ := hsecond
  have hdigits := List.append_cancel_left (hname.symm.trans hother)
  have hsame := congrArg (List.takeWhile (· != '_')) hdigits
  rw [takeWhile_toDigits, takeWhile_toDigits] at hsame
  exact Decimal.toDigits_injective (by decide) (by decide) hsame

theorem loopList_injective {n i j : Nat} (h : loopList n i = loopList n j) : i = j := by
  have htext := congrArg String.toList h
  have hdigits : Nat.toDigits 10 i = Nat.toDigits 10 j := by
    simpa [loopList, loopStem] using htext
  exact Decimal.toDigits_injective (by decide) (by decide) hdigits

theorem loopList_ne_loopIndex (n i : Nat) : loopList n i ≠ loopIndex n := by
  intro heq
  have hrest := congrArg String.toList heq
  simp [loopList, loopIndex] at hrest

/-- The helper variables of the `n`-th loop over as many iterators. -/
def loopHelpers (n count : Nat) : List String :=
  loopIndex n :: loopOutput n :: (List.range count).map fun i => loopList n (i + 1)

theorem isHelper_of_mem {count : Nat} (h : name ∈ loopHelpers n count) : IsHelper n name := by
  simp only [loopHelpers, List.mem_cons, List.mem_map] at h
  rcases h with rfl | rfl | ⟨i, -, rfl⟩
  · exact isHelper_loopIndex n
  · exact isHelper_loopOutput n
  · exact isHelper_loopList n (i + 1)

theorem loopList_mem_helpers {count i : Nat} (hi : i < count) :
    loopList n (i + 1) ∈ loopHelpers n count := by
  simp only [loopHelpers, List.mem_cons, List.mem_map, List.mem_range]
  exact .inr (.inr ⟨i, hi, rfl⟩)

/-- The code of later loops omits the helper variables of earlier ones. -/
theorem admits_omits (n count : Nat) :
    Admits n (¬ IsHelper n ·) fun part =>
      ∀ name ∈ loopHelpers n count, part.asIdent? ≠ some name where
  literal := ⟨nofun, fun _ => nofun, fun _ => nofun⟩
  ident hname other hmem heq := hname (Option.some.inj heq ▸ isHelper_of_mem hmem)
  call _ _ _ := nofun
  index _ _ := nofun
  locals _ := nofun
  group _ := nofun
  assign _ _ := nofun
  cond _ _ := nofun
  forRange _ _ _ _ _ := nofun
  saved name hname := by
    rintro ⟨rest, htext⟩
    have hshort : ∀ name ∈ ["%_s", "%_r", "simp"], ¬ "%_fe".toList <+: name.toList := by decide
    exact hshort name hname ⟨_, htext.symm⟩
  helper other hother :=
    ⟨fun h => Nat.ne_of_gt hother ((isHelper_loopIndex other).unique h),
      fun h => Nat.ne_of_gt hother ((isHelper_loopOutput other).unique h),
      fun i h => Nat.ne_of_gt hother ((isHelper_loopList other i).unique h)⟩

end Emit

/-- The body of the `n`-th loop does not mention the helper variables of the
loop. -/
theorem Block.omits_loopHelpers {n : Nat} (count : Nat) {body : Block} (hflat : body.isFlat = true)
    (hauthored : ∀ e ∈ body.authored, e.Tidy)
    (hbinders : ∀ name ∈ body.binders, isHidden name = false) :
    (body.codeAfter n).Omits (Emit.loopHelpers n count) := by
  apply Block.everywhere_codeAfter (Emit.admits_omits n count)
  · intro hnot
    rw [hflat] at hnot
    cases hnot
  · intro e he
    apply (hauthored e he).mono
    rintro part ⟨hdiscreet, -⟩ name hname heq
    have hhidden := (Emit.isHelper_of_mem hname).isHidden
    cases part with
    | ident other =>
        cases heq
        simp [Expr.isDiscreet, hhidden] at hdiscreet
    | _ => cases heq
  · intro name hname hhelper
    have hvisible := hbinders name hname
    rw [hhelper.isHidden] at hvisible
    cases hvisible

end SceneQuiz
