import SsisCompiler.Proofs.Compile.Methods

/-!
# The scripts of a program

Scripts are captured by the tasks that run them, and each keeps the name of its task's method.

Results:
* `Site.method_of_mem_scripts_task`: the scripts of a task are kept under its method.
* `Setup.method_of_mem_scripts`: so are those of any method.
* `Program.Run.method_of_mem_scripts`, `Program.Run.legal_of_mem_scripts`: the scripts of a program are
  kept under the names of its methods, which are legal.
-/

namespace SsisCompiler.Compile

open CSharp (Variable)
open Package (NodeId Tree)

/-! ## Fragments without scripts -/

@[simp]
theorem Fragment.scripts_statements (depth : Nat) (list : List CSharp.Statement) :
    (Fragment.statements depth list).scripts = [] := rfl

@[simp]
theorem Fragment.scripts_ofGap (t : Tree) (id : NodeId) (gap : Gap) :
    (Fragment.ofGap t id gap).scripts = [] := rfl

namespace Site

variable (site : Site)

@[simp]
theorem scripts_gap (gap : Gap) : (site.gap gap).scripts = [] := rfl

@[simp]
theorem scripts_setting (data : Option NodeId) (key expressionKey : String)
    (adapt : String → String) : (site.setting data key expressionKey adapt).2.scripts = [] := by
  unfold setting
  dsimp only
  split
  · rfl
  · split <;> rfl

@[simp]
theorem scripts_plainSetting (data : Option NodeId) (key expressionKey : String) :
    (site.plainSetting data key expressionKey).2.scripts = [] :=
  site.scripts_setting data key expressionKey _

theorem scripts_sqlTask : site.sqlTask.scripts = [] := by
  have hstatement : ∀ data parameters, (site.sqlStatement data parameters).2.scripts = [] := by
    intro data parameters
    unfold sqlStatement
    dsimp only
    have hsetting := fun adapt =>
      site.scripts_setting data "SqlStatementSource" "SqlStatementSource" adapt
    split
    · rename_i heq
      rw [← hsetting, heq]
    · rename_i heq
      rw [Fragment.append_scripts, ← hsetting, heq]
      simp
  have hmarkers : ∀ parameters, (site.markerGap parameters).scripts = [] := by
    intro parameters
    unfold markerGap
    split
    · rfl
    · split <;> rfl
  have hconnection : ∀ data, (site.sqlConnection data).2.scripts = [] := by
    intro data
    unfold sqlConnection
    split
    · rfl
    · split
      · rfl
      · split <;> rfl
  simp [sqlTask, hstatement, hmarkers, hconnection]

theorem scripts_mailTask : site.mailTask.scripts = [] := by
  unfold mailTask
  simp only [Fragment.append_scripts, scripts_plainSetting, Fragment.scripts_statements]
  split <;> rfl

theorem scripts_expressionTask : site.expressionTask.scripts = [] := by
  unfold expressionTask
  dsimp only
  split
  · rfl
  · split <;> rfl

/-! ## Scripts -/

/-- The scripts of a task are kept under its method. -/
theorem method_of_mem_scripts_task (kind : TaskKind) :
    ∀ script ∈ (site.task kind).scripts, script.method = site.method := by
  intro script hscript
  cases kind with
  | executeSql => simp [task, scripts_sqlTask] at hscript
  | sendMail => simp [task, scripts_mailTask] at hscript
  | expression => simp [task, scripts_expressionTask] at hscript
  | dataFlow => simp [task, dataFlowTask] at hscript
  | unknown type => simp [task, unknownTask] at hscript
  | script =>
    simp only [task, scriptTask] at hscript
    split at hscript
    · cases hscript
    · rename_i project _
      have hcaptured : ∀ script ∈ (sourceFiles site.tree project).map
          fun file => (⟨site.method, file.1, file.2⟩ : Script), script.method = site.method := by
        intro script hscript
        obtain ⟨file, -, rfl⟩ := List.mem_map.1 hscript
        rfl
      split at hscript
      · cases hscript
      split at hscript
      · exact hcaptured script (by simpa using hscript)
      · exact hcaptured script (by simpa using hscript)

end Site

namespace Setup

variable (s : Setup) (id : NodeId)

theorem scripts_forLoopHead : (s.forLoopHead id).scripts = [] := by
  have hpart : ∀ key fallback, (s.loopPart id key fallback).2.scripts = [] := by
    intro key fallback
    unfold loopPart
    split
    · rfl
    · split
      · rfl
      · split <;> rfl
  simp [forLoopHead, hpart]

theorem scripts_containerBody (container : Container) (scope : List Variable) (names : Names) :
    (s.containerBody id container scope names).1.scripts = [] := by
  have hidle : (s.idleBody id container).scripts = [] := by
    cases container <;> simp [idleBody, scripts_forLoopHead]
  have hcall : ∀ calls, (s.callBody id container calls).scripts = [] := by
    intro calls
    cases container <;> simp [callBody, scripts_forLoopHead, forEachHead]
  simp only [containerBody, Fragment.append_scripts, Fragment.scripts_statements, List.nil_append]
  split
  · exact hidle
  · exact hcall _

theorem method_of_mem_scripts_body (method : String) (scope : List Variable) (names : Names) :
    ∀ script ∈ (s.body id method scope names).1.scripts, script.method = method := by
  cases h : Executable.ofNode? s.tree id with
  | none => simp [body, h]
  | some executable =>
    cases executable with
    | task kind =>
      rw [s.body_of_task id scope names h]
      exact Site.method_of_mem_scripts_task _ kind
    | container container =>
      rw [s.body_of_container id scope names h, scripts_containerBody]
      simp

/-- The scripts of a method are kept under its name. -/
theorem method_of_mem_scripts (scope : List Variable) (names : Names) :
    ∀ script ∈ (s.method id scope names).1.scripts,
      script.method = (s.method id scope names).1.method.name :=
  s.method_of_mem_scripts_body id _ scope _

end Setup

namespace Program.Run

variable {options : Options} {t : Tree} {p : Program} {entry : NodeId} {final : Names}

/-- The scripts of a method of a program are kept under its name. -/
theorem method_of_mem_scripts (h : Run options t p entry final) (ht : t.Preordered) {c : Compiled}
    (hc : c ∈ p.methods) : ∀ script ∈ c.scripts, script.method = c.method.name := by
  intro script hscript
  obtain ⟨moment, hmoment⟩ := h.exists_compiledFrom ht c hc
  rw [hmoment.eq_method] at hscript ⊢
  exact (setup options t).method_of_mem_scripts _ _ _ script hscript

/-- Every script is kept under the name of a method, which is legal. -/
theorem legal_of_mem_scripts (h : Run options t p entry final) (ht : t.Preordered) :
    ∀ script ∈ p.scripts, LegalName script.method := by
  intro script hscript
  obtain ⟨c, hc, hscript⟩ := List.mem_flatMap.1 hscript
  rw [h.method_of_mem_scripts ht hc script hscript]
  exact (h.sound ht).legal_of_nameOf? (h.nameOf?_final ht c hc)

end Program.Run

end SsisCompiler.Compile
