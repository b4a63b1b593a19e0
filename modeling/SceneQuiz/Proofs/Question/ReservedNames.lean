import SceneQuiz.Proofs.Question.Accepted
import SceneQuiz.Proofs.Question.Verdict
/-!
Names that inputs must not have.  A compiled question lists the names that its
variables, its state and the variables of its scenes define.  The rules keep each
input apart from the names that its own scene sees; but every scene is checked on
its own, so an input can be on the list, if another scene writes its name.
-/

namespace SceneQuiz

theorem NameMap.get?_ofList_concat {α : Type} (entries : List (String × α)) (name : String)
    (value : α) : (NameMap.ofList (entries ++ [(name, value)])).get? name = some value := by
  simp [ofList]

namespace Question

theorem mem_forbidden {question : Question} {name : String} :
    name ∈ question.forbidden ↔ name ∈ question.written ∨
      name ∈ question.stateNames ∨ ∃ scene ∈ question.scenes, name ∈ scene.written := by
  rw [forbidden, NameSet.mem_union, NameSet.mem_union, Build.mem_writtenBy, or_assoc]
  rfl

theorem get?_forbiddenkeys {question : Question} {ctx : BuildContext}
    {compiled : CompiledQuestion} {log : Log}
    (h : question.compile ctx = ⟨some compiled, log⟩) :
    compiled.artifacts.get? "forbiddenkeys" = some (Artifact.keys question.forbidden.names) := by
  rw [(artifacts_of_compile h).1]
  exact NameMap.get?_ofList_concat _ _ _

/-- The forbidden names of an accepted question, and which inputs are among them:
those that are written in another scene. -/
theorem forbidden_input_iff {question : Question} {ctx : BuildContext}
    {compiled : CompiledQuestion} {log : Log}
    (h : question.compile ctx = ⟨some compiled, log⟩) :
    ∃ names, compiled.artifacts.get? "forbiddenkeys" = some (.keys names) ∧
      (∀ name, name ∈ names ↔ name ∈ question.written ∨
        name ∈ question.stateNames ∨ ∃ scene ∈ question.scenes, name ∈ scene.written) ∧
      ∀ scene ∈ question.scenes, ∀ input ∈ scene.inputNames, (input ∈ names ↔
        ∃ other ∈ question.scenes, other.name ≠ scene.name ∧ input ∈ other.written) := by
  obtain ⟨hformed, hkeeps⟩ := of_verdict (artifacts_of_compile h).2
  refine ⟨_, get?_forbiddenkeys h, fun _ => NameSet.mem_names.trans mem_forbidden, ?_⟩
  intro scene hscene input hinput
  rw [NameSet.mem_names, mem_forbidden]
  constructor
  · rintro (hquestion | hstate | ⟨other, hother, hwritten⟩)
    · exact absurd hquestion ((hkeeps scene hscene).inputs input hinput).2.2
    · exact absurd hstate ((hkeeps scene hscene).inputs input hinput).2.1
    · refine ⟨other, hother, fun hname => ?_, hwritten⟩
      have hsame : other = scene :=
        List.inj_on_of_nodup_map hformed.sceneNames.2 hother hscene hname
      subst hsame
      exact ((hkeeps other hother).writes input hwritten).2.2 hinput
  · rintro ⟨other, hother, -, hwritten⟩
    exact .inr (.inr ⟨other, hother, hwritten⟩)

/-- A question where the second scene writes the name of an input of the first. -/
def lendingQuestion : Question where
  name := "q"
  setup := ""
  stateVariables := []
  scenes := [⟨"s1", "", .empty, [⟨"ans1", .algebraic, "1"⟩], [], []⟩,
    ⟨"s2", "ans1: 1", .empty, [], [], []⟩]
  entryScene := none

theorem lendingQuestion_accepted :
    (lendingQuestion.compile plainContext).question.isSome = true := by
  decide +kernel

theorem lendingQuestion_forbidden_iff :
    ∃ compiled log, lendingQuestion.compile plainContext = ⟨some compiled, log⟩ ∧
      ∃ names, compiled.artifacts.get? "forbiddenkeys" = some (.keys names) ∧
        ("ans1" ∈ names ↔ ∃ other ∈ lendingQuestion.scenes,
          other.name ≠ "s1" ∧ "ans1" ∈ other.written) := by
  have hcompile := compile_eq_get lendingQuestion_accepted
  obtain ⟨names, hnames, -, hinputs⟩ := forbidden_input_iff hcompile
  exact ⟨_, _, hcompile, names, hnames,
    hinputs _ List.mem_cons_self "ans1" List.mem_cons_self⟩

/-- An accepted question that forbids the name of one of its inputs. -/
theorem lendingQuestion_forbids_input :
    ∃ compiled log, lendingQuestion.compile plainContext = ⟨some compiled, log⟩ ∧
      ∃ names, compiled.artifacts.get? "forbiddenkeys" = some (.keys names) ∧
        ∃ scene ∈ lendingQuestion.scenes, ∃ input ∈ scene.inputNames, input ∈ names := by
  have hcompile := compile_eq_get lendingQuestion_accepted
  have hmem : "ans1" ∈ lendingQuestion.forbidden := by decide +kernel
  exact ⟨_, _, hcompile, _, get?_forbiddenkeys hcompile, _, List.mem_cons_self, "ans1",
    List.mem_cons_self, NameSet.mem_names.mpr hmem⟩

end Question

end SceneQuiz
