import SsisCompiler.Compile.Session
import SsisCompiler.Proofs.Compile.Coverage
import SsisCompiler.Proofs.Compile.TaskGaps

/-!
# No silent placeholder

In the text of the methods of a package without the mark, the lines that are placeholders are as many
as the diagnostics that come with the methods.

Results:
* `Setup.accounted_containerBody`: the body of a container is accounted for, and what it lends and the
  names it gives are without the mark.
* `Setup.accounted_methods`: so is every method of an outline.
* `markedLines_methods`: the marked lines of some methods' text are as many as their diagnostics.
* `markedLines_addMethods`: so it is for the methods of a node and of all nodes inside it.
-/

namespace SsisCompiler.Compile

open CSharp (Body Statement Unmarked Variable)
open Package (NodeId Tree)

/-! ## Variables -/

theorem forall_mem_declareIn {P : Variable → Prop} {v : Variable} (hv : P v) {vs : List Variable}
    (h : ∀ w ∈ vs, P w) : ∀ w ∈ v.declareIn vs, P w := by
  induction vs with
  | nil => exact List.forall_mem_singleton.2 hv
  | cons w vs ih =>
    obtain ⟨hw, hvs⟩ := List.forall_mem_cons.1 h
    unfold Variable.declareIn
    split
    · exact List.forall_mem_cons.2 ⟨hv, hvs⟩
    · exact List.forall_mem_cons.2 ⟨hw, ih hvs⟩

/-! ## Kinds of tasks -/

namespace TaskKind

theorem unmarked_name_ofType {type : String} (h : Unmarked type) : Unmarked (ofType type).name := by
  unfold ofType
  dsimp only
  split_ifs
  · decide
  · decide
  · decide
  · decide
  · decide
  · exact h

theorem eq_of_ofType {type : String} {top : Bool} {kind : TaskKind}
    (h : Executable.ofType type top = .task kind) : kind = ofType type := by
  unfold Executable.ofType at h
  split at h
  · cases h
  · cases h
  · cases h
  · split at h
    · cases h
    · exact (Executable.task.inj h).symm

end TaskKind

namespace Setup

theorem isUnmarked_declareAll {vs scope : List Variable} (hvs : ∀ v ∈ vs, v.IsUnmarked)
    (hscope : ∀ v ∈ scope, v.IsUnmarked) :
    (∀ statement ∈ (declareAll vs scope).1, statement.IsPlain) ∧
      ∀ v ∈ (declareAll vs scope).2, v.IsUnmarked := by
  induction vs generalizing scope with
  | nil => exact ⟨by simp [declareAll], hscope⟩
  | cons v vs ih =>
    obtain ⟨hv, hvs⟩ := List.forall_mem_cons.1 hvs
    obtain ⟨hrest, hlent⟩ := ih hvs (forall_mem_declareIn hv hscope)
    rw [declareAll_cons]
    refine ⟨List.forall_mem_cons.2 ⟨?_, hrest⟩, hlent⟩
    split
    · exact (Statement.isPlain_assign _ _).2 ⟨hv.name, hv.initialValue⟩
    · exact (Statement.isPlain_declare v).2 hv.declaration

/-- That the mark stands in nothing that methods are made from. -/
structure IsUnmarked (s : Setup) : Prop where
  tree : s.tree.IsUnmarked
  globals : ∀ v ∈ s.globals, v.IsUnmarked

/-- What a body leaves behind: statements that are accounted for, and lent variables and names without
the mark. -/
structure AccountedBody (out : Fragment × List Variable × Names) : Prop where
  fragment : out.1.Accounted
  lent : ∀ v ∈ out.2.1, v.IsUnmarked
  names : out.2.2.IsUnmarked

variable {s : Setup} (hs : s.IsUnmarked)
include hs

theorem isUnmarked_lentVariables (id : NodeId) {scope : List Variable}
    (hscope : ∀ v ∈ scope, v.IsUnmarked) :
    (∀ statement ∈ (declareAll (ownVariables s.tree id) scope).1, statement.IsPlain) ∧
      ∀ v ∈ lentVariables s.tree id scope, v.IsUnmarked := by
  refine isUnmarked_declareAll (fun v hv => ?_) hscope
  obtain ⟨i, -, rfl⟩ := List.mem_map.1 hv
  exact isUnmarked_declaredVariable hs.tree i

/-! ## Loops -/

theorem accounted_loopPart (id : NodeId) {key fallback : String} (hkey : Unmarked key)
    (hfallback : Unmarked fallback) :
    Unmarked (s.loopPart id key fallback).1 ∧ (s.loopPart id key fallback).2.Accounted := by
  unfold loopPart
  split
  · exact ⟨hfallback, Fragment.accounted_empty⟩
  · rename_i expression hexpression
    have hunmarked := (hs.tree.node id).lookup key expression hexpression
    split
    · exact ⟨hfallback, Fragment.accounted_empty⟩
    · split
      · rename_i code hcode
        exact ⟨Expression.unmarked_compile (isUnmarked_ofNode hs.tree id) hunmarked hcode,
          Fragment.accounted_empty⟩
      · rename_i refusal hrefusal
        rw [Expression.expression_of_refusal hrefusal]
        exact ⟨hfallback, accounted_ofGap _ _ (Gap.isUnmarked_expression hkey hunmarked refusal)⟩

theorem accounted_forLoopHead (id : NodeId) : (s.forLoopHead id).Accounted := by
  obtain ⟨hinit, hinitGaps⟩ :=
    accounted_loopPart hs id (by decide : Unmarked "InitExpression") (by decide : Unmarked "")
  obtain ⟨htest, htestGaps⟩ :=
    accounted_loopPart hs id (by decide : Unmarked "EvalExpression") (by decide : Unmarked "false")
  obtain ⟨hstep, hstepGaps⟩ :=
    accounted_loopPart hs id (by decide : Unmarked "AssignExpression") (by decide : Unmarked "")
  unfold forLoopHead
  dsimp only
  refine ((hinitGaps.append htestGaps).append hstepGaps).append (Fragment.accounted_statements 0 ?_)
  simp +decide [hinit, htest, hstep]

theorem accounted_forEachHead (id : NodeId) : (s.forEachHead id).Accounted := by
  have hname : Unmarked (s.enumeratorName id) := by
    refine CSharp.unmarked_getD (fun name hname => ?_) (by decide)
    obtain ⟨e, -, hlookup⟩ := Option.bind_eq_some_iff.1 hname
    exact (hs.tree.node e).lookup "CreationName" name hlookup
  have hgap : (Gap.enumerator (s.enumeratorName id)).IsUnmarked := List.forall_mem_singleton.2 hname
  exact (accounted_ofGap _ _ hgap).append (Fragment.accounted_statements 0 (by simp +decide))

theorem accounted_idleBody (id : NodeId) (container : Container) :
    (s.idleBody id container).Accounted := by
  have hcomment (depth : Nat) : (Fragment.statements depth [.comment "No executables"]).Accounted :=
    Fragment.accounted_statements depth (by simp +decide)
  cases container with
  | forLoop =>
    exact ((accounted_forLoopHead hs id).append (hcomment 1)).append
      (Fragment.accounted_statements 0 (by simp))
  | package => exact hcomment 0
  | sequence => exact hcomment 0
  | forEachLoop => exact hcomment 0

theorem accounted_callBody (id : NodeId) (container : Container) {calls : List Statement}
    (hcalls : ∀ call ∈ calls, call.IsPlain) : (s.callBody id container calls).Accounted := by
  have hclose : (Fragment.statements 0 [.closeBlock]).Accounted :=
    Fragment.accounted_statements 0 (by simp)
  cases container with
  | forLoop =>
    exact ((accounted_forLoopHead hs id).append (Fragment.accounted_statements 1 hcalls)).append hclose
  | forEachLoop =>
    exact ((accounted_forEachHead hs id).append (Fragment.accounted_statements 1 hcalls)).append hclose
  | package => exact Fragment.accounted_statements 0 hcalls
  | sequence => exact Fragment.accounted_statements 0 hcalls

/-! ## Bodies -/

theorem accounted_containerBody (id : NodeId) (container : Container) {scope : List Variable}
    (hscope : ∀ v ∈ scope, v.IsUnmarked) {names : Names} (hnames : names.IsUnmarked) :
    AccountedBody (s.containerBody id container scope names) := by
  obtain ⟨hdeclarations, hlent⟩ := isUnmarked_lentVariables hs id hscope
  obtain ⟨hmethods, hgiven⟩ := Names.unmarked_giveAll hs.tree
    (Names.isUnmarked_reserveAll hnames (lentVariables s.tree id scope)) (s.tree.executablesOf id)
  refine ⟨(Fragment.accounted_statements 0 hdeclarations).append ?_, hlent, hgiven⟩
  split
  · exact accounted_idleBody hs id container
  · refine accounted_callBody hs id container (List.forall_mem_map.2 fun name hname => ?_)
    exact (Statement.isPlain_call _ _).2 ⟨hmethods name hname, fun v hv => (hlent v hv).name⟩

theorem unmarked_name_of_task {id : NodeId} {kind : TaskKind}
    (h : Executable.ofNode? s.tree id = some (.task kind)) : Unmarked kind.name := by
  unfold Executable.ofNode? at h
  dsimp only at h
  split at h
  · rw [TaskKind.eq_of_ofType (Option.some.inj h)]
    refine TaskKind.unmarked_name_ofType (Unmarked.of_isInfix ?_ (Text.trim_isInfix _))
    refine CSharp.unmarked_getD (fun type htype => ?_) (by decide)
    rcases Option.or_eq_some_iff.1 htype with htype | ⟨-, htype⟩
    · exact (hs.tree.node id).lookup "ExecutableType" type htype
    · exact (hs.tree.node id).lookup "CreationName" type htype
  · cases h

theorem accounted_body (id : NodeId) {method : String} (hmethod : Unmarked method)
    {scope : List Variable} (hscope : ∀ v ∈ scope, v.IsUnmarked) {names : Names}
    (hnames : names.IsUnmarked) : AccountedBody (s.body id method scope names) := by
  unfold body
  split
  · have hgap : (Gap.notExecutable (s.node id).label).IsUnmarked :=
      List.forall_mem_singleton.2 (hs.tree.node id).label
    exact ⟨accounted_ofGap _ _ hgap, hscope, hnames⟩
  · rename_i kind hkind
    refine ⟨Site.accounted_task ⟨hs.tree, hmethod, ?_⟩ (unmarked_name_of_task hs hkind), hscope, hnames⟩
    exact List.forall_mem_append.2 ⟨hscope, hs.globals⟩
  · exact accounted_containerBody hs id _ hscope hnames

/-! ## Methods -/

theorem unmarked_of_mem_summary (id : NodeId) : ∀ paragraph ∈ s.summary id, Unmarked paragraph := by
  have hlabel := (hs.tree.node id).label
  unfold summary
  dsimp only
  split
  · rename_i text htext
    split
    · exact List.forall_mem_singleton.2 hlabel
    · have hunmarked := (hs.tree.node id).lookup "Description" text htext
      exact List.forall_mem_cons.2 ⟨hlabel, List.forall_mem_singleton.2 hunmarked⟩
  · exact List.forall_mem_singleton.2 hlabel

end Setup

/-- A method that the mark stands in only where placeholders begin, with a diagnostic for each. -/
structure Compiled.Accounted (c : Compiled) : Prop where
  unmarked : c.method.IsUnmarked
  marks : c.method.body.marks = c.diagnostics.length

namespace Setup

variable {s : Setup} (hs : s.IsUnmarked)
include hs

theorem accounted_method (id : NodeId) {scope : List Variable} (hscope : ∀ v ∈ scope, v.IsUnmarked)
    {names : Names} (hnames : names.IsUnmarked) :
    (s.method id scope names).1.Accounted ∧ (∀ v ∈ (s.method id scope names).2.1, v.IsUnmarked) ∧
      (s.method id scope names).2.2.IsUnmarked := by
  obtain ⟨hname, hgiven⟩ := Names.unmarked_give hs.tree hnames id
  have hbody := accounted_body hs id hname hscope hgiven
  refine ⟨⟨⟨hname, unmarked_of_mem_summary hs id, hscope, hbody.fragment.unmarked⟩, ?_⟩, hbody.lent,
    hbody.names⟩
  exact hbody.fragment.marks

/-- Every method of an outline has a diagnostic for each of its placeholders. -/
theorem accounted_methods (outline : Outline) {scope : List Variable}
    (hscope : ∀ v ∈ scope, v.IsUnmarked) {names : Names} (hnames : names.IsUnmarked) :
    (∀ c ∈ (s.methods outline scope names).1, c.Accounted) ∧
      (s.methods outline scope names).2.IsUnmarked := by
  -- The names go from one method to the next, the scope only to the methods inside: the induction
  -- needs both for every outline.
  induction outline generalizing scope names with
  | done => exact ⟨by simp [methods], hnames⟩
  | executable id inner rest ihInner ihRest =>
    obtain ⟨hfirst, hlent, hnames⟩ := accounted_method hs id hscope hnames
    obtain ⟨hinsides, hnames⟩ := ihInner hlent hnames
    obtain ⟨hothers, hnames⟩ := ihRest hscope hnames
    rw [methods_executable]
    exact ⟨List.forall_mem_cons.2 ⟨hfirst, List.forall_mem_append.2 ⟨hinsides, hothers⟩⟩, hnames⟩

end Setup

/-! ## Texts -/

theorem markedLines_methods {indent : String} (hindent : CSharp.isSpaces indent = true)
    {methods : List Compiled} (h : ∀ c ∈ methods, c.Accounted) :
    CSharp.markedLines (String.join (methods.map (·.method.render indent))) =
      (methods.flatMap (·.diagnostics)).length := by
  have hlines : CSharp.marksOf (methods.flatMap fun c => c.method.lines indent) =
      (methods.flatMap (·.diagnostics)).length := by
    induction methods with
    | nil => rfl
    | cons c methods ih =>
      obtain ⟨hc, hmethods⟩ := List.forall_mem_cons.1 h
      rw [List.flatMap_cons, CSharp.marksOf_append, CSharp.Method.marksOf_lines hindent hc.unmarked,
        hc.marks, ih hmethods, List.flatMap_cons, List.length_append]
  rw [← hlines, ← CSharp.markedLines_renderAll, CSharp.Line.renderAll_flatMap]
  rfl

/-- The lines that are placeholders in the text of a node's method and of all methods inside it are as
many as the diagnostics that a new session has afterwards, if the mark stands in no text of the
package. -/
theorem markedLines_addMethods (t : Tree) (ht : t.IsUnmarked) (id : NodeId) (options : Options)
    (indent : String) (hindent : CSharp.isSpaces indent = true) :
    let run := ({ options := options } : Session).addMethods t id indent []
    CSharp.markedLines run.1 = run.2.diagnostics.length := by
  have hs : Setup.IsUnmarked { tree := t, globals := [], useSmo := options.useSmo } := ⟨ht, by simp⟩
  have hscope : ∀ v ∈ ([] : List Variable), v.IsUnmarked := by simp
  have hnames : Names.IsUnmarked {} := by simp [Names.IsUnmarked]
  have hmethods := (Setup.accounted_methods hs (Outline.ofIds t [id]) hscope hnames).1
  exact markedLines_methods hindent hmethods

/-- A counting loop whose test is refused and takes two lines, around a data flow and a task of a type
without code. -/
def gapTree : Tree where
  root := { kind := Package.executableKind, name := some "Package" }
  entries := #[
    ⟨0, { kind := Package.executableKind, name := some "Loop",
          attributes := [("CreationName", "STOCK:FORLOOP")],
          properties := [("EvalExpression", "1 <\n2 <")] }⟩,
    ⟨1, { kind := Package.executableKind, name := some "Flow",
          attributes := [("CreationName", "Microsoft.Pipeline")] }⟩,
    ⟨1, { kind := Package.executableKind, name := some "Copy",
          attributes := [("CreationName", "Microsoft.FileSystemTask")] }⟩]

theorem markedLines_addMethods_gapTree :
    let run := ({} : Session).addMethods gapTree 1 "    " []
    gapTree.IsUnmarked ∧ run.2.diagnostics.map (·.node) =
        ["DTS:Executable 'Loop'", "DTS:Executable 'Flow'", "DTS:Executable 'Copy'"] ∧
      CSharp.markedLines run.1 = 3 := by
  intro run
  have ht : gapTree.IsUnmarked := by decide +kernel
  have hmarked := markedLines_addMethods gapTree ht 1 {} "    " (by decide)
  have hnodes : run.2.diagnostics.map (·.node) =
      ["DTS:Executable 'Loop'", "DTS:Executable 'Flow'", "DTS:Executable 'Copy'"] := by
    decide +kernel
  refine ⟨ht, hnodes, hmarked.trans ?_⟩
  rw [← List.length_map, hnodes]
  rfl

end SsisCompiler.Compile
