import SsisCompiler.Proofs.Compile.Coverage

/-!
# What the options of a program change

Only the body of a task that runs a statement depends on whether management objects may be used, and
only the header of a program depends on the version of the server. So two compilations of one package
agree on all but the bodies of methods and the header, whatever their options are.

Results:
* `exists_fillParts`: a template can be filled if each of its slots has a value.
* `withoutBody_method`, `method_withSmo_lent`: one method, and what it passes on.
* `withoutBody_methods`: the methods of an outline.
* `compile_under_options`: two compilations of one package.
-/

namespace SsisCompiler.Template

theorem exists_fillParts (values : List (String × String)) {parts : List TemplatePart}
    (h : ∀ name, .slot name ∈ parts → ∃ value, values.lookup name = some value) :
    ∃ text, fillParts values parts = .ok text := by
  induction parts with
  | nil => exact ⟨"", rfl⟩
  | cons part rest ih =>
    obtain ⟨text, htext⟩ := ih fun name hname => h name (List.mem_cons_of_mem _ hname)
    cases part with
    | text s => exact ⟨s ++ text, by rw [fillParts, htext]; rfl⟩
    | slot name =>
      obtain ⟨value, hvalue⟩ := h name List.mem_cons_self
      exact ⟨value ++ text, by simp only [fillParts, hvalue, htext]; rfl⟩

theorem exists_fill (t : Template) (values : List (String × String))
    (h : ∀ name, .slot name ∈ t.parts → ∃ value, values.lookup name = some value) :
    ∃ text, t.fill values = .ok text := by
  obtain ⟨text, htext⟩ := exists_fillParts values h
  exact ⟨text, by rw [fill, htext]⟩

/-- Only the header has slots. -/
theorem exists_fill_nil {t : Template} (h : t ≠ .header) : ∃ text, t.fill [] = .ok text := by
  refine exists_fill t [] fun name hname => ?_
  cases t with
  | header => exact absurd rfl h
  | footer | smoUsing | tableParameters =>
    simp only [parts, textLines, List.mem_singleton, reduceCtorEq] at hname

end SsisCompiler.Template

namespace SsisCompiler.Compile

open CSharp (Line Variable)
open Package (Layout NodeId Precedence Reading Tree)

/-! ## Methods -/

/-- A method without its statements. -/
def Compiled.withoutBody (c : Compiled) : Compiled :=
  { c with method := { c.method with body := [] } }

theorem Site.diagnostics_task_withSmo (site : Site) (useSmo : Bool) (kind : TaskKind) :
    ({ site with useSmo := useSmo }.task kind).diagnostics = (site.task kind).diagnostics := by
  cases kind <;> rfl

theorem Site.scripts_task_withSmo (site : Site) (useSmo : Bool) (kind : TaskKind) :
    ({ site with useSmo := useSmo }.task kind).scripts = (site.task kind).scripts := by
  cases kind <;> rfl

namespace Setup

/-- The same compilation with another choice about management objects. -/
def withSmo (s : Setup) (useSmo : Bool) : Setup :=
  { s with useSmo := useSmo }

section Method

variable (s : Setup) (useSmo : Bool) (id : NodeId) (scope : List Variable) (names : Names)

/-- Only a task reads the choice, and its fragment differs in the statements alone. -/
theorem body_withSmo (method : String) :
    ((s.withSmo useSmo).body id method scope names).2 = (s.body id method scope names).2 ∧
      ((s.withSmo useSmo).body id method scope names).1.diagnostics =
        (s.body id method scope names).1.diagnostics ∧
      ((s.withSmo useSmo).body id method scope names).1.scripts =
        (s.body id method scope names).1.scripts := by
  have htree : (s.withSmo useSmo).tree = s.tree := rfl
  cases h : Executable.ofNode? s.tree id with
  | none =>
    simp only [body, htree, h, true_and]
    exact ⟨rfl, rfl⟩
  | some executable =>
    cases executable with
    | task kind =>
      rw [body_of_task _ id scope names h, body_of_task (s.withSmo useSmo) id scope names h]
      let site : Site := ⟨s.tree, id, scope, s.globals, method, s.useSmo⟩
      exact ⟨rfl, site.diagnostics_task_withSmo useSmo kind, site.scripts_task_withSmo useSmo kind⟩
    | container container =>
      rw [body_of_container _ id scope names h,
        body_of_container (s.withSmo useSmo) id scope names h]
      exact ⟨rfl, rfl, rfl⟩

theorem method_withSmo_lent :
    ((s.withSmo useSmo).method id scope names).2 = (s.method id scope names).2 :=
  (s.body_withSmo useSmo id scope (names.give s.tree id).2 (names.give s.tree id).1).1

theorem withoutBody_method :
    ((s.withSmo useSmo).method id scope names).1.withoutBody =
      (s.method id scope names).1.withoutBody := by
  obtain ⟨-, hdiagnostics, hscripts⟩ :=
    s.body_withSmo useSmo id scope (names.give s.tree id).2 (names.give s.tree id).1
  rw [Compiled.withoutBody, Compiled.withoutBody, Compiled.mk.injEq]
  exact ⟨rfl, rfl, hdiagnostics, hscripts⟩

end Method

/-- The methods of an outline differ in their bodies alone, and the names are the same in the end. -/
theorem withoutBody_methods (s : Setup) (useSmo : Bool) (outline : Outline) (scope : List Variable)
    (names : Names) :
    ((s.withSmo useSmo).methods outline scope names).1.map Compiled.withoutBody =
        (s.methods outline scope names).1.map Compiled.withoutBody ∧
      ((s.withSmo useSmo).methods outline scope names).2 = (s.methods outline scope names).2 := by
  induction outline generalizing scope names with
  | done => exact ⟨rfl, rfl⟩
  | executable id inner rest ihinner ihrest =>
    -- what is lent and the names in between agree, so the induction applies to both parts
    have hlent := s.method_withSmo_lent useSmo id scope names
    simp only [methods_executable, hlent, (ihinner _ _).2, (ihrest _ _).2, List.map_cons,
      List.map_append, (ihinner _ _).1, (ihrest _ _).1, s.withoutBody_method useSmo, and_self]

theorem withoutBody_methodsOf (s : Setup) (useSmo : Bool) (ids : List NodeId)
    (scope : List Variable) (names : Names) :
    ((s.withSmo useSmo).methodsOf ids scope names).1.map Compiled.withoutBody =
        (s.methodsOf ids scope names).1.map Compiled.withoutBody ∧
      ((s.withSmo useSmo).methodsOf ids scope names).2 = (s.methodsOf ids scope names).2 :=
  s.withoutBody_methods useSmo (Outline.ofIds s.tree ids) scope names

end Setup

/-! ## Programs -/

namespace Program

theorem exists_headerText (p : Program) (options : Options) (t : Tree) (project : String) :
    ∃ header, p.headerText Template.fill options t project = .ok header := by
  obtain ⟨smo, hsmo⟩ := Template.exists_fill_nil (t := .smoUsing) (by decide)
  obtain ⟨tables, htables⟩ := Template.exists_fill_nil (t := .tableParameters) (by decide)
  have hheader : ∀ smo tables, ∃ header, Template.fill .header [
      ("main_function", p.entryPoint), ("namespace", CSharp.sanitize project),
      ("package_name", t.root.name.getD project), ("sql_smo_using", smo),
      ("table_param_static", tables)] = .ok header := by
    intro smo tables
    refine Template.exists_fill _ _ fun name hname => ?_
    have hslots : name = "package_name" ∨ name = "sql_smo_using" ∨ name = "namespace" ∨
        name = "main_function" ∨ name = "table_param_static" := by
      simpa only [Template.parts, Template.textLines, List.mem_cons, List.not_mem_nil, reduceCtorEq,
        TemplatePart.slot.injEq, false_or, or_false] using hname
    rcases hslots with rfl | rfl | rfl | rfl | rfl <;> exact ⟨_, rfl⟩
  obtain ⟨mode, useSmo⟩ := options
  cases useSmo <;> cases mode <;>
    simp only [headerText, hsmo, htables] <;> exact hheader _ _

/-- The text of a program is its header, its members and a footer that is always the same. -/
theorem exists_source (p : Program) (options : Options) (t : Tree) (project : String) :
    ∃ header footer, p.headerText Template.fill options t project = .ok header ∧
      Template.fill .footer [] = .ok footer ∧
      p.source Template.fill options t project = .ok (header ++ p.memberText ++ footer) := by
  obtain ⟨header, hheader⟩ := p.exists_headerText options t project
  obtain ⟨footer, hfooter⟩ := Template.exists_fill_nil (t := .footer) (by decide)
  refine ⟨header, footer, hheader, hfooter, ?_⟩
  rw [source, hheader, hfooter]
  rfl

/-- Two programs that differ in the bodies of their methods at most. -/
structure SameOutsideBodies (p p' : Program) : Prop where
  fields : p.fields = p'.fields
  methods : p.methods.map Compiled.withoutBody = p'.methods.map Compiled.withoutBody
  entryPoint : p.entryPoint = p'.entryPoint
  methodCount : p.methodCount = p'.methodCount

namespace SameOutsideBodies

variable {p p' : Program}

/-- What does not depend on bodies can be read off the methods without them. -/
theorem flatMap_eq {α : Type} {f : Compiled → List α} (hf : ∀ c, f c.withoutBody = f c)
    (h : SameOutsideBodies p p') : p.methods.flatMap f = p'.methods.flatMap f := by
  have hread : ∀ methods : List Compiled,
      (methods.map Compiled.withoutBody).flatMap f = methods.flatMap f := by
    intro methods
    rw [List.flatMap_map]
    exact List.flatMap_congr fun c _ => hf c
  rw [← hread p.methods, h.methods, hread]

theorem diagnostics (h : SameOutsideBodies p p') : p.diagnostics = p'.diagnostics :=
  h.flatMap_eq fun _ => rfl

theorem scripts (h : SameOutsideBodies p p') : p.scripts = p'.scripts :=
  h.flatMap_eq fun _ => rfl

end SameOutsideBodies

theorem setup_withSmo (options options' : Options) (t : Tree) :
    setup options' t = (setup options t).withSmo options'.useSmo := rfl

/-- The programs of a package under any two options. -/
theorem ofTree?_under_options (options options' : Options) (t : Tree) :
    (ofTree? options t = none ∧ ofTree? options' t = none) ∨
      ∃ p p', ofTree? options t = some p ∧ ofTree? options' t = some p' ∧ SameOutsideBodies p p' ∧
        (options.useSmo = options'.useSmo → p = p') := by
  cases hentry : (Layout.ofTree t).executables with
  | nil => exact Or.inl (by simp only [ofTree?, hentry, and_self])
  | cons entry rest =>
    obtain ⟨hmethods, hnames⟩ := (setup options t).withoutBody_methodsOf options'.useSmo
      (entry :: rest) [] (startNames t entry)
    rw [← setup_withSmo] at hmethods hnames
    refine Or.inr ⟨_, _, ofTree?_of_executables options hentry,
      ofTree?_of_executables options' hentry, ⟨rfl, ?_, rfl, ?_⟩, ?_⟩
    · rw [hmethods]
    · rw [hnames]
    · intro h
      have hsetup : setup options t = setup options' t := by rw [setup, setup, h]
      rw [hsetup]

end Program

/-! ## Packages -/

theorem compile_of_reading (settings : Settings) {text : String} {reading : Reading}
    (h : Reading.ofText? { precedence := settings.precedence } text = some reading)
    (project : String) :
    compile settings project text =
      compileReading Template.fill settings.options project reading := by
  simp only [compile, compileWith, h]

theorem compileReading_of_ofTree? {options : Options} {reading : Reading} {p : Program}
    {project source : String} (h : Program.ofTree? options reading.tree = some p)
    (hsource : p.source Template.fill options reading.tree project = .ok source) :
    compileReading Template.fill options project reading = .ok ⟨source, p, reading.warnings⟩ := by
  simp only [compileReading, h, hsource]

/-- Options change only what they are meant to change. Two compilations of one package fail with one
error, or both give a program: with the same entry point, diagnostics, scripts, warnings and fields, and
as many methods. If they differ in the version of the server alone, then the texts are the same after
their headers. -/
theorem compile_under_options (options options' : Options) (precedence : Precedence)
    (project text : String) :
    (∃ e, compile ⟨options, precedence⟩ project text = .error e ∧
      compile ⟨options', precedence⟩ project text = .error e) ∨
    ∃ reading out out', Reading.ofText? { precedence := precedence } text = some reading ∧
      compile ⟨options, precedence⟩ project text = .ok out ∧
      compile ⟨options', precedence⟩ project text = .ok out' ∧
      out.program.entryPoint = out'.program.entryPoint ∧
      out.program.diagnostics = out'.program.diagnostics ∧
      out.program.scripts = out'.program.scripts ∧
      out.warnings = out'.warnings ∧
      out.program.methodCount = out'.program.methodCount ∧
      out.program.fields = out'.program.fields ∧
      (options.useSmo = options'.useSmo → ∃ header header' rest,
        out.program.headerText Template.fill options reading.tree project = .ok header ∧
        out'.program.headerText Template.fill options' reading.tree project = .ok header' ∧
        out.source = header ++ rest ∧ out'.source = header' ++ rest) := by
  cases hreading : Reading.ofText? { precedence := precedence } text with
  | none => exact Or.inl ⟨.malformed, by simp only [compile, compileWith, hreading, and_self]⟩
  | some reading =>
    rw [compile_of_reading ⟨options, precedence⟩ hreading,
      compile_of_reading ⟨options', precedence⟩ hreading]
    rcases Program.ofTree?_under_options options options' reading.tree with
      ⟨hnone, hnone'⟩ | ⟨p, p', hp, hp', hsame, heq⟩
    · exact Or.inl ⟨.noExecutables, by simp only [compileReading, hnone, hnone', and_self]⟩
    obtain ⟨header, footer, hheader, hfooter, hsource⟩ :=
      p.exists_source options reading.tree project
    obtain ⟨header', footer', hheader', hfooter', hsource'⟩ :=
      p'.exists_source options' reading.tree project
    refine Or.inr ⟨reading, _, _, rfl, compileReading_of_ofTree? hp hsource,
      compileReading_of_ofTree? hp' hsource', hsame.entryPoint, hsame.diagnostics, hsame.scripts,
      rfl, hsame.methodCount, hsame.fields, fun hsmo => ?_⟩
    refine ⟨header, header', p.memberText ++ footer, hheader, hheader', String.append_assoc .., ?_⟩
    obtain rfl : footer = footer' := Except.ok.inj (hfooter.symm.trans hfooter')
    rw [heq hsmo]
    exact String.append_assoc ..

/-- A task that runs a statement without parameters and results. -/
def statementText : String :=
  "<DTS:Executable xmlns:DTS=\"d\">" ++
    "<DTS:Executable DTS:ObjectName=\"A\" DTS:CreationName=\"Microsoft.ExecuteSQLTask\">" ++
      "<SqlTaskData SqlStatementSource=\"go\"/></DTS:Executable></DTS:Executable>"

theorem compile_under_options_statementText :
    ∃ out out' header header' rest,
      compile ⟨⟨.sql2008, true⟩, .last⟩ "P" statementText = .ok out ∧
      compile ⟨⟨.sql2005, true⟩, .last⟩ "P" statementText = .ok out' ∧
      out.program.diagnostics.length = 1 ∧
      out.program.diagnostics = out'.program.diagnostics ∧
      out.source = header ++ rest ∧ out'.source = header' ++ rest := by
  have hlength : ((compile ⟨⟨.sql2008, true⟩, .last⟩ "P" statementText).toOption.map fun out =>
      out.program.diagnostics.length) = some 1 := by
    decide +kernel
  have hoptions :=
    compile_under_options ⟨.sql2008, true⟩ ⟨.sql2005, true⟩ .last "P" statementText
  generalize compile ⟨⟨.sql2008, true⟩, .last⟩ "P" statementText = result at hlength hoptions ⊢
  generalize compile ⟨⟨.sql2005, true⟩, .last⟩ "P" statementText = result' at hoptions ⊢
  rcases hoptions with
    ⟨e, rfl, -⟩ | ⟨_, out, out', _, rfl, rfl, _, hdiagnostics, _, _, _, _, hsources⟩
  · simp [Except.toOption] at hlength
  · obtain ⟨header, header', rest, -, -, hsource, hsource'⟩ := hsources rfl
    exact ⟨out, out', header, header', rest, rfl, rfl, Option.some.inj hlength, hdiagnostics,
      hsource, hsource'⟩

end SsisCompiler.Compile
