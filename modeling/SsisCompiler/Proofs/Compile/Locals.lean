import Mathlib.Logic.Relation
import SsisCompiler.Proofs.Compile.Calls

/-!
# The names inside a method

A method has variables of the package, lent to it or its own, and locals whose names are fixed by what
the method does. Variables of the package with the same name share one declaration. The fixed names are
written whatever the variables are called.

Results:
* `Site.declared_task`: a task declares its fixed locals and nothing else.
* `Setup.CompiledFrom.declared_eq`: what any method declares, in order.
* `Program.Run.mem_parameters_iff`: the variables lent to a method are those of the containers around it.
* `nodup_declaredNames_iff`: the names inside a method differ exactly if no variable of the package that
  the method has is called like one of its fixed locals.
-/

namespace SsisCompiler.CSharp.Statement

@[simp]
theorem declared_newLocal (typeName name value : String) :
    (newLocal typeName name value).declared = [name] := rfl

@[simp]
theorem declared_assign (name value : String) : (assign name value).declared = [] := rfl

@[simp]
theorem declared_acquire (v : Variable) : (acquire v).declared = [v.name] := rfl

@[simp]
theorem declared_openBlock : openBlock.declared = [] := rfl

@[simp]
theorem declared_closeBlock : closeBlock.declared = [] := rfl

@[simp]
theorem declared_code (text : String) : (code text).declared = [] := rfl

@[simp]
theorem declared_comment (text : String) : (comment text).declared = [] := rfl

end SsisCompiler.CSharp.Statement

namespace SsisCompiler.Compile

open CSharp (Body Method Statement Variable)
open Markup (Element)
open Package (NodeId Reading Tree)

/-! ## Locals with fixed names -/

/-- The locals of a task that runs a statement. Only a command has parameters and results, and only
results need a reader. -/
def sqlLocals (t : Tree) (useSmo : Bool) (id : NodeId) : List String :=
  let data := t.findDescendant? id "SqlTaskData"
  let results := bindings t data "ResultBinding" "ResultName"
  let parameters := bindings t data "ParameterBinding" "ParameterName"
  ["connstr", "sql", "conn"] ++
    if useSmo && results.isEmpty && parameters.isEmpty then ["server"]
    else if results.isEmpty then ["cmd"]
    else ["cmd", "dr"]

/-- The locals of a task that runs a script: none unless there is a script that can be called. -/
def scriptLocals (t : Tree) (id : NodeId) : List String :=
  match t.findDescendant? id "ScriptProject" with
  | none => []
  | some project =>
    if (sourceFiles t project).isEmpty || isVisualBasic (t.node project) then [] else ["script"]

/-- The locals of the method of a node that are no variables of the package, in order. -/
def fixedLocals (t : Tree) (useSmo : Bool) (id : NodeId) : List String :=
  match Executable.ofNode? t id with
  | some (.task .executeSql) => sqlLocals t useSmo id
  | some (.task .script) => scriptLocals t id
  | some (.task .sendMail) => ["message", "client"]
  | some (.container .forEachLoop) => if t.executablesOf id = [] then [] else ["item"]
  | _ => []

theorem nodup_fixedLocals (t : Tree) (useSmo : Bool) (id : NodeId) :
    (fixedLocals t useSmo id).Nodup := by
  unfold fixedLocals sqlLocals scriptLocals
  dsimp only
  split
  · split_ifs <;> decide
  · split
    · exact .nil
    · split_ifs <;> decide
  · decide
  · split_ifs <;> decide
  · exact .nil

theorem fixedLocals_of_container {t : Tree} (useSmo : Bool) {id : NodeId} {container : Container}
    (h : Executable.ofNode? t id = some (.container container)) :
    fixedLocals t useSmo id =
      if container = .forEachLoop ∧ t.executablesOf id ≠ [] then ["item"] else [] := by
  unfold fixedLocals
  rw [h]
  cases container with
  | forEachLoop => by_cases hempty : t.executablesOf id = [] <;> simp [hempty]
  | package => rfl
  | sequence => rfl
  | forLoop => rfl

/-! ## What tasks declare -/

theorem declared_optionalCode (value : Option Nat) (code : String → String) :
    (optionalCode value code).flatMap (·.declared) = [] := by
  cases value <;> rfl

theorem declared_setPart (value : Option String) (statement : String → String) :
    (setPart value statement).flatMap (·.declared) = [] := by
  cases value <;> rfl

theorem declared_makeClient (host : Option String) :
    (makeClient host).flatMap (·.declared) = ["client"] := by
  cases host <;> rfl

theorem declared_serverBody (limit : Option Nat) : (serverBody limit).declared = ["conn", "server"] := by
  simp only [serverBody, openConnection, Body.declared_append, Body.declared_placedAt,
    List.flatMap_append, declared_optionalCode]
  simp

theorem declared_commandBody (site : Site) (limit : Option Nat) (parameters results : List Binding) :
    (commandBody limit parameters (results.map site.readResult)).declared =
      "conn" :: if results.isEmpty then ["cmd"] else ["cmd", "dr"] := by
  have hparameters : (parameters.map addParameter).flatMap (·.declared) = [] := by
    simp [addParameter]
  have hreads : (results.map site.readResult).flatMap (·.declared) = [] := by
    simp [Site.readResult]
  simp only [commandBody, runCommand, openConnection, Body.declared_append, Body.declared_placedAt,
    List.flatMap_append, declared_optionalCode, hparameters, List.isEmpty_map]
  split
  · simp
  · simp only [Body.declared_append, Body.declared_placedAt, hreads]
    simp

namespace Site

variable (site : Site)

theorem inert_setting (data : Option NodeId) (key expressionKey : String) (adapt : String → String) :
    (site.setting data key expressionKey adapt).2.body.Inert := by
  unfold setting
  dsimp only
  split
  · exact Body.inert_nil
  · split
    · exact Body.inert_nil
    · exact Setup.inert_ofGap _ _ _

theorem inert_sqlStatement (data : Option NodeId) (parameters : List Binding) :
    (site.sqlStatement data parameters).2.body.Inert := by
  have hsetting := site.inert_setting data "SqlStatementSource" "SqlStatementSource"
    (if hasMarkers parameters then renameMarkers else fun text => text)
  unfold sqlStatement
  dsimp only
  split
  · rename_i code fragment heq
    rw [heq] at hsetting
    exact hsetting
  · rename_i fragment heq
    rw [heq] at hsetting
    exact Body.inert_append hsetting (Setup.inert_ofGap _ _ _)

theorem inert_markerGap (parameters : List Binding) : (site.markerGap parameters).body.Inert := by
  unfold markerGap
  split
  · exact Body.inert_nil
  · split
    · exact Setup.inert_ofGap _ _ _
    · exact Body.inert_nil

theorem inert_sqlConnection (data : Option NodeId) : (site.sqlConnection data).2.body.Inert := by
  unfold sqlConnection
  split
  · exact Setup.inert_ofGap _ _ _
  · split
    · exact Setup.inert_ofGap _ _ _
    · split
      · exact Setup.inert_ofGap _ _ _
      · exact Body.inert_nil

theorem declared_gap (gap : Gap) : (site.gap gap).body.declared = [] :=
  (Setup.inert_ofGap site.tree site.id gap).declared_eq

theorem declared_sqlTask :
    site.sqlTask.body.declared = sqlLocals site.tree site.useSmo site.id := by
  unfold sqlTask sqlLocals
  dsimp only
  simp only [Fragment.append_body, Body.declared_append, (site.inert_sqlStatement _ _).declared_eq,
    (site.inert_markerGap _).declared_eq, (site.inert_sqlConnection _).declared_eq, List.nil_append,
    Fragment.statements, Body.declared_placedAt]
  split
  · rw [declared_serverBody]
    rfl
  · rw [declared_commandBody]
    rfl

theorem declared_mailTask : site.mailTask.body.declared = ["message", "client"] := by
  have hsettings (data : Option NodeId) (key expressionKey : String) :
      (site.plainSetting data key expressionKey).2.body.declared = [] :=
    (site.inert_setting data key expressionKey _).declared_eq
  unfold mailTask
  dsimp only
  simp only [Fragment.append_body, Body.declared_append, hsettings, List.nil_append,
    Fragment.statements, Body.declared_placedAt, List.flatMap_append, declared_setPart,
    declared_makeClient]
  split
  · rfl
  · rw [declared_gap]
    rfl

theorem declared_scriptTask : site.scriptTask.body.declared = scriptLocals site.tree site.id := by
  unfold scriptTask scriptLocals
  cases site.tree.findDescendant? site.id "ScriptProject" with
  | none => exact site.declared_gap _
  | some project =>
    dsimp only
    by_cases hfiles : (sourceFiles site.tree project).isEmpty = true
    · simp only [hfiles, Bool.true_or, if_true]
      exact site.declared_gap _
    by_cases hbasic : isVisualBasic (site.tree.node project) = true
    · simp only [hfiles, hbasic, Bool.or_true, if_true, Bool.false_eq_true, if_false]
      exact site.declared_gap _
    · simp only [hfiles, hbasic, Bool.or_false, Bool.false_eq_true, if_false]
      rfl

theorem declared_expressionTask : site.expressionTask.body.declared = [] := by
  unfold expressionTask
  dsimp only
  split
  · exact site.declared_gap _
  · split
    · rfl
    · exact site.declared_gap _

theorem declared_dataFlowTask : site.dataFlowTask.body.declared = [] := by
  have hcomments : (site.components.map fun node =>
      Statement.comment ("  - " ++ componentText node)).flatMap (·.declared) = [] := by
    simp
  rw [dataFlowTask, Fragment.append_body, Body.declared_append, declared_gap, Fragment.statements,
    Body.declared_placedAt, hcomments]
  rfl

theorem declared_unknownTask (type : String) : (site.unknownTask type).body.declared = [] := by
  rw [unknownTask, Fragment.append_body, Body.declared_append, declared_gap]
  rfl

/-- A task declares no variables of the package, but only its fixed locals. -/
theorem declared_task {kind : TaskKind}
    (h : Executable.ofNode? site.tree site.id = some (.task kind)) :
    (site.task kind).body.declared = fixedLocals site.tree site.useSmo site.id := by
  unfold fixedLocals
  rw [h]
  cases kind with
  | executeSql => exact site.declared_sqlTask
  | script => exact site.declared_scriptTask
  | sendMail => exact site.declared_mailTask
  | expression => exact site.declared_expressionTask
  | dataFlow => exact site.declared_dataFlowTask
  | unknown type => exact site.declared_unknownTask type

end Site

/-! ## What a method declares -/

/-- The variables that the method of a node declares itself: those of a container. -/
def declaredIn (t : Tree) (id : NodeId) : List Variable :=
  match Executable.ofNode? t id with
  | some (.container _) => ownVariables t id
  | _ => []

theorem declaredIn_of_container {t : Tree} {id : NodeId} {container : Container}
    (h : Executable.ofNode? t id = some (.container container)) :
    declaredIn t id = ownVariables t id := by
  simp only [declaredIn, h]

namespace Setup

/-- The names after declarations are those before and those that the statements declare. -/
theorem append_declared_declareAll (vs scope : List Variable) :
    scope.map (·.name) ++ (declareAll vs scope).1.flatMap (·.declared) =
      (declareAll vs scope).2.map (·.name) := by
  have hlocals (scope : List Variable) : (declareAll vs scope).1.flatMap (·.declared) =
      ((declareAll vs scope).1.flatMap (·.locals)).map (·.name) := by
    induction vs generalizing scope with
    | nil => rfl
    | cons v vs ih =>
      rw [declareAll_cons, List.flatMap_cons, List.flatMap_cons, List.map_append, ih]
      split_ifs
      · rfl
      · rfl
  rw [map_name_declareAll, hlocals]

/-- A method declares its variables, as far as they were not lent to it, and then its fixed locals. -/
theorem CompiledFrom.declared_eq {s : Setup} {start final : Names} {c : Compiled} {moment : Names}
    (h : s.CompiledFrom start final c moment) :
    c.method.body.declared =
      (declareAll (declaredIn s.tree c.id) c.method.parameters).1.flatMap (·.declared) ++
        fixedLocals s.tree s.useSmo c.id := by
  have hbody : c.method.body = (s.body c.id (moment.give s.tree c.id).1 c.method.parameters
      (moment.give s.tree c.id).2).1.body := congrArg (·.method.body) h.eq_method
  cases hid : Executable.ofNode? s.tree c.id with
  | none =>
    rw [hbody]
    simp only [body, declaredIn, fixedLocals, hid]
    exact (inert_ofGap _ _ _).declared_eq
  | some executable =>
    cases executable with
    | task kind =>
      let site : Site := {
        tree := s.tree, id := c.id, scope := c.method.parameters, globals := s.globals,
        method := (moment.give s.tree c.id).1, useSmo := s.useSmo }
      rw [hbody]
      simp only [body, declaredIn, hid]
      exact site.declared_task hid
    | container container =>
      have hcalled : (s.calledMethods c.id c.method.parameters (moment.give s.tree c.id).2).1 = [] ↔
          s.tree.executablesOf c.id = [] := by
        rw [← List.length_eq_zero_iff, calledMethods, Names.length_giveAll, List.length_eq_zero_iff]
      rw [h.body_eq hid, declared_containerBody, declaredIn_of_container hid,
        fixedLocals_of_container s.useSmo hid]
      simp only [ne_eq, hcalled]

end Setup

/-! ## Where parameters come from -/

/-- An executable is one that a container runs. -/
def Runs (t : Tree) (container id : NodeId) : Prop :=
  id ∈ callees t container

open Relation (ReflTransGen TransGen)

theorem Outline.Covers.exists_runs {t : Tree} {ids : List NodeId} {outline : Outline}
    (h : outline.Covers t ids) : ∀ i ∈ outline.ids, ∃ id ∈ ids, ReflTransGen (Runs t) id i := by
  induction h with
  | done => simp [Outline.ids]
  | @executable id ids inner rest _ _ ihinner ihrest =>
    intro i hi
    rcases List.mem_cons.1 hi with rfl | hi
    · exact ⟨i, List.mem_cons_self, .refl⟩
    rcases List.mem_append.1 hi with hi | hi
    · obtain ⟨called, hcalled, hruns⟩ := ihinner i hi
      exact ⟨id, List.mem_cons_self, .head hcalled hruns⟩
    · obtain ⟨other, hother, hruns⟩ := ihrest i hi
      exact ⟨other, List.mem_cons_of_mem _ hother, hruns⟩

/-- A parameter is lent to all methods of an outline, or is a variable of a container around it. -/
theorem Setup.exists_owner {s : Setup} {ids : List NodeId} {outline : Outline}
    (h : outline.Covers s.tree ids) (scope : List Variable) (names : Names) :
    ∀ c ∈ (s.methods outline scope names).1, ∀ name ∈ c.method.parameters.map (·.name),
      name ∈ scope.map (·.name) ∨ ∃ m ∈ (s.methods outline scope names).1,
        TransGen (Runs s.tree) m.id c.id ∧ name ∈ (declaredIn s.tree m.id).map (·.name) := by
  induction h generalizing scope names with
  | done => simp [methods]
  | @executable id ids inner rest hinner _ ihinner ihrest =>
    rw [methods_executable]
    intro c hc name hname
    rcases List.mem_cons.1 hc with rfl | hc
    · exact Or.inl hname
    rcases List.mem_append.1 hc with hc | hc
    · rcases ihinner _ _ c hc name hname with hlent | ⟨m, hm, hruns, hown⟩
      · have hid : c.id ∈ inner.ids := by
          rw [← s.map_id_methods inner _ _]
          exact List.mem_map_of_mem hc
        obtain ⟨called, hcalled, hruns⟩ := hinner.exists_runs c.id hid
        obtain ⟨container, hcontainer⟩ := exists_container_of_mem_callees hcalled
        rw [s.lent_of_container id scope names hcontainer, mem_map_name_lentVariables] at hlent
        refine hlent.imp_right fun hown => ⟨_, List.mem_cons_self, .head' hcalled hruns, ?_⟩
        rw [s.method_id, declaredIn_of_container hcontainer]
        exact hown
      · exact Or.inr ⟨m, List.mem_cons_of_mem _ (List.mem_append_left _ hm), hruns, hown⟩
    · refine (ihrest _ _ c hc name hname).imp_right ?_
      rintro ⟨m, hm, hruns⟩
      exact ⟨m, List.mem_cons_of_mem _ (List.mem_append_right _ hm), hruns⟩

/-- Whether the method of a node has a variable of the package with a name: one of the container that
the node is, or of a container around it. -/
def Program.InScope (p : Program) (t : Tree) (id : NodeId) (name : String) : Prop :=
  ∃ m ∈ p.methods, ReflTransGen (Runs t) m.id id ∧ name ∈ (declaredIn t m.id).map (·.name)

namespace Program.Run

variable {options : Options} {t : Tree} {p : Program} {entry : NodeId} {final : Names}

theorem mem_parameters_callee (h : Run options t p entry final) (ht : t.Preordered) {m : Compiled}
    (hm : m ∈ p.methods) {i : NodeId} (hi : Runs t m.id i) :
    ∃ c ∈ p.methods, c.id = i ∧ ∀ name, name ∈ c.method.parameters.map (·.name) ↔
      name ∈ m.method.parameters.map (·.name) ∨ name ∈ (declaredIn t m.id).map (·.name) := by
  obtain ⟨c, hc, hid, hparameters⟩ := h.exists_callee ht m hm i hi
  obtain ⟨container, hcontainer⟩ := exists_container_of_mem_callees hi
  refine ⟨c, hc, hid, fun name => ?_⟩
  rw [hparameters, mem_map_name_lentVariables, declaredIn_of_container hcontainer]

/-- What a method has is lent to all that it runs. -/
theorem exists_lent_to (h : Run options t p entry final) (ht : t.Preordered) {m : Compiled}
    (hm : m ∈ p.methods) {i : NodeId} (hruns : TransGen (Runs t) m.id i) :
    ∃ c ∈ p.methods, c.id = i ∧ ∀ name ∈ (declaredIn t m.id).map (·.name),
      name ∈ c.method.parameters.map (·.name) := by
  induction hruns with
  | single hi =>
    obtain ⟨c, hc, hid, hiff⟩ := h.mem_parameters_callee ht hm hi
    exact ⟨c, hc, hid, fun name hname => (hiff name).2 (Or.inr hname)⟩
  | tail _ hi ih =>
    obtain ⟨between, hbetween, rfl, hlent⟩ := ih
    obtain ⟨c, hc, hid, hiff⟩ := h.mem_parameters_callee ht hbetween hi
    exact ⟨c, hc, hid, fun name hname => (hiff name).2 (Or.inl (hlent name hname))⟩

/-- The variables lent to a method are those of the containers around it. -/
theorem mem_parameters_iff (h : Run options t p entry final) (ht : t.Preordered) {c : Compiled}
    (hc : c ∈ p.methods) (name : String) :
    name ∈ c.method.parameters.map (·.name) ↔
      ∃ m ∈ p.methods, TransGen (Runs t) m.id c.id ∧ name ∈ (declaredIn t m.id).map (·.name) := by
  constructor
  · intro hname
    rw [h.methods_eq] at hc ⊢
    exact (Setup.exists_owner (s := setup options t) (covers_executables ht) _ _ c hc name
      hname).resolve_left List.not_mem_nil
  · rintro ⟨m, hm, hruns, hown⟩
    obtain ⟨c', hc', hid, hlent⟩ := h.exists_lent_to ht hm hruns
    obtain rfl := List.inj_on_of_nodup_map (h.nodup_ids ht) hc' hc hid
    exact hlent name hown

theorem inScope_iff (h : Run options t p entry final) (ht : t.Preordered) {c : Compiled}
    (hc : c ∈ p.methods) (name : String) :
    p.InScope t c.id name ↔
      name ∈ c.method.parameters.map (·.name) ∨ name ∈ (declaredIn t c.id).map (·.name) := by
  rw [h.mem_parameters_iff ht hc]
  constructor
  · rintro ⟨m, hm, hruns, hown⟩
    rcases Relation.reflTransGen_iff_eq_or_transGen.1 hruns with heq | hruns
    · exact Or.inr (heq ▸ hown)
    · exact Or.inl ⟨m, hm, hruns, hown⟩
  · rintro (⟨m, hm, hruns, hown⟩ | hown)
    · exact ⟨m, hm, hruns.to_reflTransGen, hown⟩
    · exact ⟨c, hc, .refl, hown⟩

end Program.Run

/-! ## The names of a method -/

/-- The names that a method declares: its parameters, and what its body declares. -/
def declaredNames (m : Method) : List String :=
  m.parameters.map (·.name) ++ m.body.declared

/-- No name is declared twice in a method, unless a variable has the name of a fixed local. The
variables of the package that a method has are those of the containers around it and its own; each of
them is a parameter or a local, and no two have the same name. Behind them come the fixed locals, which
also differ. So all names differ exactly if none of the fixed locals has the name of such a variable.
The text of the members has the parameters and the declarations of these methods, spelled out. -/
theorem nodup_declaredNames_iff (o : Package.Options) (e : Element) (options : Options) (p : Program)
    (h : Program.ofTree? options (Reading.ofElement o e).tree = some p) :
    p.memberText = p.fieldRegion ++ p.methodRegion ∧
    ∀ c ∈ p.methods,
      (∃ own, declaredNames c.method = (c.method.parameters.map (·.name) ++ own) ++
          fixedLocals (Reading.ofElement o e).tree options.useSmo c.id ∧
        (c.method.parameters.map (·.name) ++ own).Nodup ∧
        ∀ name, name ∈ c.method.parameters.map (·.name) ++ own ↔
          p.InScope (Reading.ofElement o e).tree c.id name) ∧
      (fixedLocals (Reading.ofElement o e).tree options.useSmo c.id).Nodup ∧
      ((declaredNames c.method).Nodup ↔
        ∀ name ∈ fixedLocals (Reading.ofElement o e).tree options.useSmo c.id,
          ¬ p.InScope (Reading.ofElement o e).tree c.id name) := by
  have ht := Package.preordered_ofElement o e
  obtain ⟨entry, final, hrun⟩ := Program.exists_run h
  refine ⟨p.memberText_eq, fun c hc => ?_⟩
  obtain ⟨moment, hmoment⟩ := hrun.exists_compiledFrom ht c hc
  let own := (Setup.declareAll (declaredIn (Reading.ofElement o e).tree c.id)
    c.method.parameters).1.flatMap (·.declared)
  have hnames : c.method.parameters.map (·.name) ++ own =
      (Setup.declareAll (declaredIn (Reading.ofElement o e).tree c.id)
        c.method.parameters).2.map (·.name) :=
    Setup.append_declared_declareAll _ _
  have hdeclared : declaredNames c.method = (c.method.parameters.map (·.name) ++ own) ++
      fixedLocals (Reading.ofElement o e).tree options.useSmo c.id := by
    rw [declaredNames, hmoment.declared_eq, List.append_assoc]
    rfl
  have hnodup : (c.method.parameters.map (·.name) ++ own).Nodup := by
    rw [hnames]
    exact Setup.nodup_declareAll _ (hrun.nodup_parameters ht c hc)
  have hmem : ∀ name, name ∈ c.method.parameters.map (·.name) ++ own ↔
      p.InScope (Reading.ofElement o e).tree c.id name := by
    intro name
    rw [hnames, Setup.mem_map_name_declareAll, hrun.inScope_iff ht hc]
  have hfixed := nodup_fixedLocals (Reading.ofElement o e).tree options.useSmo c.id
  refine ⟨⟨own, hdeclared, hnodup, hmem⟩, hfixed, ?_⟩
  rw [hdeclared, List.nodup_append']
  constructor
  · rintro ⟨-, -, hdisjoint⟩ name hname hscope
    exact hdisjoint ((hmem name).2 hscope) hname
  · intro hfree
    exact ⟨hnodup, hfixed, fun name hown hname => hfree name hname ((hmem name).1 hown)⟩

/-- A sequence with variables around a task that runs a statement and one that sends mail. -/
def lendingElement : Element where
  tag := packageTag "Executable" []
  body := executableContent "Outer" "STOCK:SEQUENCE"
    (variableContent "sql" "8" (executableContent "Load" "Microsoft.ExecuteSQLTask" .done
      (executableContent "Tell" "Microsoft.SendMailTask" .done .done))) .done

/-- The program of the sequence. -/
def lendingProgram : Program :=
  (Program.ofTree? {} (Reading.ofElement {} lendingElement).tree).get (by decide +kernel)

theorem ofTree?_lendingElement :
    Program.ofTree? {} (Reading.ofElement {} lendingElement).tree = some lendingProgram :=
  (Option.some_get _).symm

/-- The names in the method that sends mail differ. -/
theorem nodup_declaredNames_iff_lendingElement :
    Program.ofTree? {} (Reading.ofElement {} lendingElement).tree = some lendingProgram ∧
      ∃ c ∈ lendingProgram.methods,
        declaredNames c.method = ["sql", "message", "client"] ∧ (declaredNames c.method).Nodup := by
  obtain ⟨c, hc, hid, hnames⟩ : ∃ c ∈ lendingProgram.methods, c.id = 4 ∧
      declaredNames c.method = ["sql", "message", "client"] := by decide +kernel
  have hfixed : fixedLocals (Reading.ofElement {} lendingElement).tree true c.id =
      ["message", "client"] := by
    rw [hid]
    decide +kernel
  have hvariables : ∀ m ∈ lendingProgram.methods, ∀ name ∈
      (declaredIn (Reading.ofElement {} lendingElement).tree m.id).map (·.name), name = "sql" := by
    decide +kernel
  refine ⟨ofTree?_lendingElement, c, hc, hnames, ?_⟩
  refine ((nodup_declaredNames_iff {} lendingElement {} lendingProgram ofTree?_lendingElement).2 c
    hc).2.2.2 ?_
  rintro name hname ⟨m, hm, -, hown⟩
  obtain rfl := hvariables m hm name hown
  rw [hfixed] at hname
  revert hname
  decide

/-- The method that runs a statement has a parameter and a local of the same name. -/
theorem not_nodup_declaredNames_lendingElement :
    Program.ofTree? {} (Reading.ofElement {} lendingElement).tree = some lendingProgram ∧
      ∃ c ∈ lendingProgram.methods,
        declaredNames c.method = ["sql", "connstr", "sql", "conn", "server"] ∧
          ¬ (declaredNames c.method).Nodup :=
  ⟨ofTree?_lendingElement, by decide +kernel⟩

end SsisCompiler.Compile
