import SsisCompiler.Proofs.Compile.Unmarked

/-!
# The gaps of tasks

A fragment is accounted for if the mark stands in its placeholders only and it has a diagnostic for each
of them. Whatever a task is and however it falls back, its body is accounted for.

Results:
* `accounted_ofGap`: a gap is, in a package without the mark.
* `Fragment.Accounted.append`: so are two fragments one after the other.
* `Site.accounted_setting`: so is what a setting leaves behind.
* `Site.accounted_task`: so is the body of any task.
-/

namespace SsisCompiler.CSharp

/-! ## Plain statements -/

namespace Statement

/-- A statement that is no placeholder and that the mark does not stand in. -/
def IsPlain (s : Statement) : Prop :=
  s.IsUnmarked ∧ s.isPlaceholder = false

@[simp]
theorem isPlain_code (text : String) : (code text).IsPlain ↔ Unmarked text :=
  and_iff_left rfl

@[simp]
theorem isPlain_comment (text : String) : (comment text).IsPlain ↔ Unmarked text :=
  and_iff_left rfl

@[simp]
theorem isPlain_assign (name value : String) :
    (assign name value).IsPlain ↔ Unmarked name ∧ Unmarked value :=
  and_iff_left rfl

@[simp]
theorem isPlain_declare (v : Variable) : (declare v).IsPlain ↔ Unmarked v.declaration :=
  and_iff_left rfl

@[simp]
theorem isPlain_newLocal (typeName name value : String) :
    (newLocal typeName name value).IsPlain ↔ Unmarked typeName ∧ Unmarked name ∧ Unmarked value := by
  simp +decide [newLocal, Variable.declaration, and_assoc]

@[simp]
theorem isPlain_acquire (v : Variable) : (acquire v).IsPlain ↔ Unmarked v.declaration :=
  and_iff_left rfl

@[simp]
theorem isPlain_call (method : String) (arguments : List Variable) :
    (call method arguments).IsPlain ↔ Unmarked method ∧ ∀ v ∈ arguments, Unmarked v.name :=
  and_iff_left rfl

@[simp]
theorem isPlain_forEach (typeName name collection : String) :
    (forEach typeName name collection).IsPlain ↔
      Unmarked typeName ∧ Unmarked name ∧ Unmarked collection :=
  and_iff_left rfl

@[simp]
theorem isPlain_openBlock : openBlock.IsPlain :=
  ⟨trivial, rfl⟩

@[simp]
theorem isPlain_closeBlock : closeBlock.IsPlain :=
  ⟨trivial, rfl⟩

end Statement

/-- A body of plain statements. -/
def Body.IsPlain (body : Body) : Prop :=
  ∀ placed ∈ body, placed.statement.IsPlain

@[simp]
theorem Body.isPlain_append (a b : Body) : IsPlain (a ++ b) ↔ IsPlain a ∧ IsPlain b :=
  List.forall_mem_append

@[simp]
theorem Body.isPlain_placedAt (depth : Nat) (list : List Statement) :
    IsPlain (placedAt depth list) ↔ ∀ s ∈ list, s.IsPlain :=
  List.forall_mem_map

end SsisCompiler.CSharp

namespace SsisCompiler.Compile

open CSharp (Body Statement Unmarked Variable)
open Package (NodeId Tree)

/-! ## Fragments -/

/-- A fragment that the mark stands in only where placeholders begin, with a diagnostic for each. -/
structure Fragment.Accounted (f : Fragment) : Prop where
  unmarked : f.body.IsUnmarked
  marks : f.body.marks = f.diagnostics.length

namespace Fragment

theorem accounted_empty : Accounted {} :=
  ⟨by simp [Body.IsUnmarked], rfl⟩

theorem Accounted.append {a b : Fragment} (ha : a.Accounted) (hb : b.Accounted) :
    (a ++ b).Accounted where
  unmarked := List.forall_mem_append.2 ⟨ha.unmarked, hb.unmarked⟩
  marks := by
    have hsum : (a ++ b).body.marks = a.body.marks + b.body.marks := List.countP_append
    rw [hsum, ha.marks, hb.marks, append_diagnostics, List.length_append]

theorem accounted_of_isPlain {body : Body} (h : body.IsPlain) (scripts : List Script) :
    Accounted ⟨body, [], scripts⟩ where
  unmarked placed hplaced := (h placed hplaced).1
  marks := by
    refine List.countP_eq_zero.2 fun placed hplaced => ?_
    rw [(h placed hplaced).2]
    exact Bool.false_ne_true

theorem accounted_statements (depth : Nat) {list : List Statement} (h : ∀ s ∈ list, s.IsPlain) :
    (statements depth list).Accounted :=
  accounted_of_isPlain ((Body.isPlain_placedAt depth list).2 h) []

end Fragment

/-! ## Gaps -/

namespace Gap

/-- The texts that the placeholder of a gap is made of. -/
def texts : Gap → List String
  | .notExecutable label => [label]
  | .taskType type => [type]
  | .enumerator name => [name]
  -- The subject counts with what stands before it, which ends in a letter of the mark.
  | .expression subject shown _ => [" EXPRESSION" ++ subject, shown]
  | .connectionNotFound reference => [reference]
  | .noConnectionString name => [name]
  | _ => []

/-- That the mark stands in nothing that the placeholder of a gap is made of. -/
def IsUnmarked (gap : Gap) : Prop :=
  ∀ text ∈ gap.texts, Unmarked text

theorem isUnmarked_expression {key shown : String} (hkey : Unmarked key) (hshown : Unmarked shown)
    (refusal : Expression.Refusal) :
    (Gap.expression (" (" ++ key ++ ")") shown refusal).IsUnmarked := by
  have hsubject : Unmarked (" EXPRESSION" ++ (" (" ++ key ++ ")")) := by
    rw [← String.append_assoc, ← String.append_assoc]
    simp +decide [hkey]
  exact List.forall_mem_cons.2 ⟨hsubject, List.forall_mem_singleton.2 hshown⟩

theorem isUnmarked_placeholder {gap : Gap} (h : gap.IsUnmarked) : gap.placeholder.IsUnmarked := by
  cases gap with
  | notExecutable label =>
    have hlabel : Unmarked label := h label List.mem_cons_self
    have hmessage : Unmarked (label ++ " is not an executable") := by simp +decide [hlabel]
    exact ⟨by decide, hmessage⟩
  | taskType type =>
    have htype : Unmarked type := h type List.mem_cons_self
    have hmessage : Unmarked ("task type '" ++ type ++ "' has no translation") := by
      simp +decide [htype]
    exact ⟨by decide, hmessage⟩
  | enumerator name =>
    have hname : Unmarked name := h name List.mem_cons_self
    have hmessage : Unmarked
        ("for-each enumerator '" ++ name ++ "'" ++ "; the loop body runs once") := by
      simp +decide [hname]
    exact ⟨by decide, hmessage⟩
  | expression subject shown refusal =>
    exact ⟨h _ List.mem_cons_self, h _ (List.mem_cons_of_mem _ List.mem_cons_self)⟩
  | connectionNotFound reference =>
    have hreference : Unmarked reference := h reference List.mem_cons_self
    have hmessage : Unmarked ("connection '" ++ reference ++ "' not found in package") := by
      simp +decide [hreference]
    exact ⟨by decide, hmessage⟩
  | noConnectionString name =>
    have hname : Unmarked name := h name List.mem_cons_self
    have hmessage : Unmarked ("connection '" ++ name ++ "' has no connection string") := by
      simp +decide [hname]
    exact ⟨by decide, hmessage⟩
  | dataFlow components =>
    have hmessage : Unmarked ("data flow with " ++ toString components ++ " component(s)") := by
      simp +decide
    exact ⟨by decide, hmessage⟩
  | _ => exact ⟨by decide, by decide⟩

theorem isPlaceholder_placeholder (gap : Gap) : gap.placeholder.isPlaceholder = true := by
  cases gap <;> rfl

end Gap

theorem accounted_ofGap (t : Tree) (id : NodeId) {gap : Gap} (h : gap.IsUnmarked) :
    (Fragment.ofGap t id gap).Accounted where
  unmarked := List.forall_mem_singleton.2 (Gap.isUnmarked_placeholder h)
  marks := List.countP_eq_length.2 (List.forall_mem_singleton.2 gap.isPlaceholder_placeholder)

/-- A gap with fixed words. -/
theorem accounted_ofGap_of_texts (t : Tree) (id : NodeId) {gap : Gap} (h : gap.texts = []) :
    (Fragment.ofGap t id gap).Accounted :=
  accounted_ofGap t id (by simp [Gap.IsUnmarked, h])

namespace Site

/-- That the mark stands in nothing that the body of a task is made from. -/
structure IsUnmarked (site : Site) : Prop where
  tree : site.tree.IsUnmarked
  method : Unmarked site.method
  visible : ∀ v ∈ site.scope ++ site.globals, v.IsUnmarked

variable {site : Site} (hsite : site.IsUnmarked)
include hsite

/-! ## Settings -/

theorem unmarked_fixed (data : Option NodeId) (key : String) :
    ∀ text ∈ site.fixed? data key, Unmarked text :=
  unmarked_fixedSetting hsite.tree site.id data key

theorem accounted_setting (data : Option NodeId) (key : String) {expressionKey : String}
    (hkey : Unmarked expressionKey) {adapt : String → String}
    (hadapt : ∀ text, Unmarked text → Unmarked (adapt text)) :
    (∀ code ∈ (site.setting data key expressionKey adapt).1, Unmarked code) ∧
      (site.setting data key expressionKey adapt).2.Accounted := by
  have hfixed : ∀ code ∈ (site.fixed? data key).map fun text => CSharp.verbatim (adapt text),
      Unmarked code := by
    intro code hcode
    obtain ⟨text, htext, rfl⟩ := Option.map_eq_some_iff.1 hcode
    exact CSharp.unmarked_verbatim (hadapt text (unmarked_fixed hsite data key text htext))
  unfold setting
  dsimp only
  split
  · exact ⟨hfixed, Fragment.accounted_empty⟩
  · rename_i expression hexpression
    have hunmarked := unmarked_expressionSetting hsite.tree site.id expressionKey expression hexpression
    split
    · rename_i code hcode
      refine ⟨fun c hc => ?_, Fragment.accounted_empty⟩
      obtain rfl := Option.mem_some.1 hc
      exact Expression.unmarked_compile (isUnmarked_ofNode hsite.tree site.id) hunmarked hcode
    · rename_i refusal _
      exact ⟨hfixed, accounted_ofGap _ _
        (Gap.isUnmarked_expression hkey (CSharp.unmarked_oneLine hunmarked) refusal)⟩

theorem accounted_plainSetting (data : Option NodeId) (key : String) {expressionKey : String}
    (hkey : Unmarked expressionKey) :
    (∀ code ∈ (site.plainSetting data key expressionKey).1, Unmarked code) ∧
      (site.plainSetting data key expressionKey).2.Accounted :=
  accounted_setting hsite data key hkey fun _ htext => htext

/-! ## Statements -/

theorem accounted_sqlStatement (data : Option NodeId) (parameters : List Binding) :
    Unmarked (site.sqlStatement data parameters).1 ∧
      (site.sqlStatement data parameters).2.Accounted := by
  have hadapt : ∀ text, Unmarked text →
      Unmarked ((if hasMarkers parameters then renameMarkers else fun text => text) text) := by
    intro text htext
    split
    · exact unmarked_renameMarkers htext
    · exact htext
  obtain ⟨hcode, hleft⟩ := accounted_setting hsite data "SqlStatementSource"
    (by decide : Unmarked "SqlStatementSource") hadapt
  unfold sqlStatement
  dsimp only
  split
  · rename_i code fragment hsetting
    rw [hsetting] at hcode hleft
    exact ⟨hcode code rfl, hleft⟩
  · rename_i fragment hsetting
    rw [hsetting] at hleft
    exact ⟨CSharp.unmarked_verbatim (by decide), hleft.append (accounted_ofGap_of_texts _ _ rfl)⟩

omit hsite in
theorem accounted_markerGap (parameters : List Binding) : (site.markerGap parameters).Accounted := by
  unfold markerGap
  split
  · exact Fragment.accounted_empty
  · split
    · exact accounted_ofGap_of_texts _ _ rfl
    · exact Fragment.accounted_empty

theorem accounted_sqlConnection (data : Option NodeId) :
    Unmarked (site.sqlConnection data).1 ∧ (site.sqlConnection data).2.Accounted := by
  unfold sqlConnection
  split
  · exact ⟨CSharp.unmarked_verbatim (by decide), accounted_ofGap_of_texts _ _ rfl⟩
  · rename_i reference hreference
    split
    · have hunmarked := unmarked_fixed hsite data "Connection" reference hreference
      exact ⟨CSharp.unmarked_verbatim (by decide),
        accounted_ofGap _ _ (List.forall_mem_singleton.2 hunmarked)⟩
    · rename_i connection hconnection
      obtain ⟨hname, hstored⟩ := unmarked_connection hsite.tree hconnection
      split
      · exact ⟨CSharp.unmarked_verbatim (by decide),
          accounted_ofGap _ _ (List.forall_mem_singleton.2 hname)⟩
      · rename_i stored heq
        exact ⟨CSharp.unmarked_verbatim (unmarked_serverConnection (hstored stored heq)),
          Fragment.accounted_empty⟩

theorem unmarked_resultCast (variableName : String) : Unmarked (site.resultCast variableName) := by
  unfold resultCast
  split
  · decide
  · rename_i v hv
    have hmem : v ∈ site.scope ++ site.globals := by
      have hfound := List.mem_of_find?_eq_some hv
      simpa using hfound
    split
    · decide
    · simp +decide [(hsite.visible v hmem).typeName]

theorem isPlain_readResult {result : Binding} (h : result.IsUnmarked) :
    (site.readResult result).IsPlain := by
  have hcast := unmarked_resultCast hsite result.variableName
  have hcolumn := unmarked_columnCode h.name
  have hread : Unmarked
      (site.resultCast result.variableName ++ "dr[" ++ columnCode result.name ++ "]") := by
    simp +decide [hcast, hcolumn]
  exact (Statement.isPlain_assign _ _).2 ⟨h.variableName, hread⟩

end Site

theorem isPlain_addParameter {parameter : Binding} (h : parameter.IsUnmarked) :
    (addParameter parameter).IsPlain := by
  have hname := CSharp.unmarked_verbatim (unmarked_parameterName h.name)
  refine (Statement.isPlain_code _).2 ?_
  simp +decide [hname, h.variableName]

theorem isPlain_of_mem_optionalCode (value : Option Nat) {code : String → String}
    (h : ∀ n : Nat, Unmarked (code (toString n))) : ∀ s ∈ optionalCode value code, s.IsPlain := by
  intro s hs
  cases value with
  | none => cases hs
  | some n =>
    obtain rfl := List.mem_singleton.1 hs
    exact (Statement.isPlain_code _).2 (h n)

theorem isPlain_of_mem_openConnection : ∀ s ∈ openConnection, s.IsPlain := by
  simp +decide [openConnection]

theorem isPlain_serverBody (limit : Option Nat) : (serverBody limit).IsPlain := by
  unfold serverBody
  simp only [Body.isPlain_append, Body.isPlain_placedAt, List.forall_mem_append]
  refine ⟨⟨isPlain_of_mem_openConnection, ⟨by simp +decide, ?_⟩, by simp +decide⟩, by simp⟩
  exact isPlain_of_mem_optionalCode limit fun n => by simp +decide

theorem isPlain_runCommand {reads : List Statement} (h : ∀ s ∈ reads, s.IsPlain) :
    (runCommand reads).IsPlain := by
  unfold runCommand
  split
  · simp +decide
  · simp only [Body.isPlain_append, Body.isPlain_placedAt]
    exact ⟨⟨⟨⟨by simp +decide, by simp +decide⟩, h⟩, by simp⟩, by simp⟩

theorem isPlain_commandBody (limit : Option Nat) {parameters : List Binding}
    (hparameters : ∀ parameter ∈ parameters, parameter.IsUnmarked) {reads : List Statement}
    (hreads : ∀ s ∈ reads, s.IsPlain) : (commandBody limit parameters reads).IsPlain := by
  unfold commandBody
  simp only [Body.isPlain_append, Body.isPlain_placedAt, List.forall_mem_append, List.forall_mem_map]
  refine ⟨⟨⟨⟨⟨isPlain_of_mem_openConnection, by simp +decide⟩, ?_, ?_⟩, isPlain_runCommand hreads⟩,
    by simp⟩, by simp⟩
  · exact isPlain_of_mem_optionalCode limit fun n => by simp +decide
  · exact fun parameter hmem => isPlain_addParameter (hparameters parameter hmem)

namespace Site

variable {site : Site} (hsite : site.IsUnmarked)
include hsite

theorem accounted_sqlTask : site.sqlTask.Accounted := by
  unfold sqlTask
  dsimp only
  obtain ⟨hstatement, hstatementGaps⟩ := accounted_sqlStatement hsite
    (site.tree.findDescendant? site.id "SqlTaskData")
    (bindings site.tree (site.tree.findDescendant? site.id "SqlTaskData") "ParameterBinding"
      "ParameterName")
  obtain ⟨hconnection, hconnectionGaps⟩ := accounted_sqlConnection hsite
    (site.tree.findDescendant? site.id "SqlTaskData")
  refine (((hstatementGaps.append (accounted_markerGap _)).append hconnectionGaps).append
    (Fragment.accounted_statements 0 ?_)).append (Fragment.accounted_of_isPlain ?_ [])
  · simp +decide [hstatement, hconnection]
  · split
    · exact isPlain_serverBody _
    · refine isPlain_commandBody _ (fun b hb => isUnmarked_of_mem_bindings hsite.tree hb) ?_
      exact List.forall_mem_map.2 fun b hb =>
        isPlain_readResult hsite (isUnmarked_of_mem_bindings hsite.tree hb)

/-! ## Mail -/

omit hsite in
theorem isPlain_of_mem_setPart {value : Option String} (hvalue : ∀ code ∈ value, Unmarked code)
    {statement : String → String} (h : ∀ code, Unmarked code → Unmarked (statement code)) :
    ∀ s ∈ setPart value statement, s.IsPlain := by
  intro s hs
  cases value with
  | none => cases hs
  | some code =>
    obtain rfl := List.mem_singleton.1 hs
    exact (Statement.isPlain_code _).2 (h code (hvalue code rfl))

omit hsite in
theorem unmarked_addRecipients {collection : String} (hcollection : Unmarked collection)
    (code : String) (hcode : Unmarked code) : Unmarked (addRecipients collection code) := by
  unfold addRecipients
  simp +decide [hcollection, hcode]

theorem unmarked_mailHost (data : Option NodeId) : ∀ host ∈ site.mailHost? data, Unmarked host := by
  intro host hhost
  obtain ⟨reference, -, hrest⟩ := Option.bind_eq_some_iff.1 hhost
  obtain ⟨connection, hconnection, hrest⟩ := Option.bind_eq_some_iff.1 hrest
  obtain ⟨stored, hstored, hvalue⟩ := Option.bind_eq_some_iff.1 hrest
  have hunmarked := (unmarked_connection hsite.tree hconnection).2 stored hstored
  exact unmarked_connectionValue hunmarked "SmtpServer" host hvalue

omit hsite in
theorem isPlain_of_mem_makeClient {host : Option String} (h : ∀ name ∈ host, Unmarked name) :
    ∀ s ∈ makeClient host, s.IsPlain := by
  cases host with
  | none => simp +decide [makeClient]
  | some name =>
    have hname := CSharp.unmarked_verbatim (h name rfl)
    simp +decide [makeClient, hname]

theorem accounted_mailTask : site.mailTask.Accounted := by
  unfold mailTask
  dsimp only
  generalize site.tree.findDescendant? site.id "SendMailTaskData" = data
  obtain ⟨hsender, hsenderGaps⟩ :=
    accounted_plainSetting hsite data "From" (by decide : Unmarked "FromLine")
  obtain ⟨hto, htoGaps⟩ := accounted_plainSetting hsite data "To" (by decide : Unmarked "ToLine")
  obtain ⟨hcc, hccGaps⟩ := accounted_plainSetting hsite data "CC" (by decide : Unmarked "CCLine")
  obtain ⟨hbcc, hbccGaps⟩ := accounted_plainSetting hsite data "BCC" (by decide : Unmarked "BCCLine")
  obtain ⟨hsubject, hsubjectGaps⟩ :=
    accounted_plainSetting hsite data "Subject" (by decide : Unmarked "Subject")
  obtain ⟨htext, htextGaps⟩ :=
    accounted_plainSetting hsite data "MessageSource" (by decide : Unmarked "MessageSource")
  have hgaps := ((((hsenderGaps.append htoGaps).append hccGaps).append hbccGaps).append
    hsubjectGaps).append htextGaps
  refine ((hgaps.append (Fragment.accounted_statements 0 (by simp +decide))).append ?_).append
    (Fragment.accounted_statements 0 ?_)
  · split
    · rename_i code hcode
      have hunmarked := hsender code hcode
      exact Fragment.accounted_statements 0 (by simp +decide [hunmarked])
    · exact accounted_ofGap_of_texts _ _ rfl
  · simp only [List.forall_mem_append]
    refine ⟨⟨⟨⟨⟨⟨?_, ?_⟩, ?_⟩, ?_⟩, ?_⟩, ?_⟩, by simp +decide⟩
    · exact isPlain_of_mem_setPart hto (unmarked_addRecipients (by decide))
    · exact isPlain_of_mem_setPart hcc (unmarked_addRecipients (by decide))
    · exact isPlain_of_mem_setPart hbcc (unmarked_addRecipients (by decide))
    · exact isPlain_of_mem_setPart hsubject fun code hcode => by simp +decide [hcode]
    · exact isPlain_of_mem_setPart htext fun code hcode => by simp +decide [hcode]
    · exact isPlain_of_mem_makeClient (unmarked_mailHost hsite data)

/-! ## Scripts -/

theorem isPlain_of_mem_callScript {spaceName : Option String} (h : ∀ name ∈ spaceName, Unmarked name) :
    ∀ s ∈ callScript site.method spaceName, s.IsPlain := by
  cases spaceName with
  | none => simp +decide [callScript, scriptClass, hsite.method]
  | some name => simp +decide [callScript, scriptClass, hsite.method, h name rfl]

theorem accounted_scriptTask : site.scriptTask.Accounted := by
  unfold scriptTask
  split
  · exact accounted_ofGap_of_texts _ _ rfl
  · rename_i project hproject
    dsimp only
    split
    · exact accounted_ofGap_of_texts _ _ rfl
    · split
      · exact (Fragment.accounted_of_isPlain (by simp [Body.IsPlain]) _).append
          (accounted_ofGap_of_texts _ _ rfl)
      · refine (Fragment.accounted_of_isPlain (by simp [Body.IsPlain]) _).append
          (Fragment.accounted_statements 0 (isPlain_of_mem_callScript hsite ?_))
        exact unmarked_mainNamespace fun file hfile => unmarked_of_mem_sourceFiles hsite.tree hfile

/-! ## All kinds -/

theorem accounted_expressionTask : site.expressionTask.Accounted := by
  unfold expressionTask
  dsimp only
  split
  · exact accounted_ofGap_of_texts _ _ rfl
  · rename_i expression hexpression
    have hunmarked := unmarked_fixed hsite _ "Expression" expression hexpression
    split
    · rename_i code hcode
      have hcode' := Expression.unmarked_compileStatement (isUnmarked_ofNode hsite.tree site.id)
        hunmarked hcode
      exact Fragment.accounted_statements 0 (by simp +decide [hcode'])
    · refine accounted_ofGap _ _ (List.forall_mem_cons.2 ⟨by decide, ?_⟩)
      exact List.forall_mem_singleton.2 hunmarked

theorem accounted_dataFlowTask : site.dataFlowTask.Accounted := by
  unfold dataFlowTask
  dsimp only
  refine (accounted_ofGap_of_texts _ _ rfl).append (Fragment.accounted_statements 0 ?_)
  refine List.forall_mem_map.2 fun node hnode => ?_
  obtain ⟨id, -, rfl⟩ := List.mem_map.1 (List.mem_of_mem_filter hnode)
  have hid := hsite.tree.node id
  have hname := CSharp.unmarked_getD (hid.lookup "name") (by decide : Unmarked "unnamed")
  have htext : Unmarked (componentText (site.tree.node id)) := by
    unfold componentText
    dsimp only
    split
    · rename_i classId hclass
      simp +decide [hname, hid.lookup "componentClassID" classId hclass]
    · exact hname
  simp +decide [htext]

theorem accounted_unknownTask {type : String} (h : Unmarked type) :
    (site.unknownTask type).Accounted := by
  have hthrown : Unmarked (CSharp.verbatim (site.method ++ " is not translated")) :=
    CSharp.unmarked_verbatim (by simp +decide [hsite.method])
  have hgap : (Gap.taskType type).IsUnmarked := List.forall_mem_singleton.2 h
  refine (accounted_ofGap _ _ hgap).append (Fragment.accounted_statements 0 ?_)
  simp +decide [hthrown]

/-- The body of a task has a diagnostic for each of its placeholders, whatever the task is. -/
theorem accounted_task {kind : TaskKind} (h : Unmarked kind.name) : (site.task kind).Accounted := by
  cases kind with
  | executeSql => exact accounted_sqlTask hsite
  | script => exact accounted_scriptTask hsite
  | sendMail => exact accounted_mailTask hsite
  | expression => exact accounted_expressionTask hsite
  | dataFlow => exact accounted_dataFlowTask hsite
  | unknown type => exact accounted_unknownTask hsite h

end Site

end SsisCompiler.Compile
