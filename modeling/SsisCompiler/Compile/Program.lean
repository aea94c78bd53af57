import SsisCompiler.Compile.Method
import SsisCompiler.Compile.Options
import SsisCompiler.Template

/-!
# Programs

A package becomes a program: a field for each variable of the package, and the methods of its
executables. The first executable is the one that the program starts with.
-/

namespace SsisCompiler.Compile

open CSharp (Line Variable)
open Package (Layout NodeId Reading Tree Warning)

/-! ## Members -/

/-- The members of a program. -/
structure Program where
  fields : List Variable
  methods : List Compiled
  /-- The method that the program starts with. -/
  entryPoint : String
  /-- How many nodes got a method name. -/
  methodCount : Nat
  deriving DecidableEq, Repr

namespace Program

/-- The names that are taken before any method is compiled: those of the fields. -/
def reservedNames (fields : List Variable) : Names :=
  fields.foldl (fun names v => names.reserve v.name) {}

/-- The program of a package, unless the package has nothing to run. The entry point takes its name
before all other methods. -/
def ofTree? (options : Options) (t : Tree) : Option Program :=
  let layout := Layout.ofTree t
  match layout.executables with
  | [] => none
  | entry :: _ =>
    let fields := layout.globals.map (declaredVariable t)
    let setup : Setup := { tree := t, globals := fields, useSmo := options.useSmo }
    let (entryPoint, names) := (reservedNames fields).give t entry
    let (methods, names) := setup.methodsOf layout.executables [] names
    some ⟨fields, methods, entryPoint, names.count⟩

/-- The diagnostics of a program, in the order of its methods. -/
def diagnostics (p : Program) : List Diagnostic :=
  p.methods.flatMap (·.diagnostics)

/-- The scripts of a program, in the order of its methods. -/
def scripts (p : Program) : List Script :=
  p.methods.flatMap (·.scripts)

/-! ## Text -/

/-- The indentation of members. -/
def memberIndent : String := "        "

/-- The lines of the fields, in a region of their own. -/
def fieldLines (p : Program) : List Line :=
  [⟨memberIndent, "#region Global Variables"⟩]
    ++ p.fields.map (fieldLine memberIndent)
    ++ [⟨memberIndent, "#endregion"⟩, Line.blank, Line.blank]

/-- The lines of the methods, in a region of their own. -/
def methodLines (p : Program) : List Line :=
  [⟨memberIndent, "#region SSIS Code"⟩]
    ++ p.methods.flatMap (fun compiled => compiled.method.lines memberIndent)
    ++ [⟨memberIndent, "#endregion"⟩]

/-- The text of the members. -/
def memberText (p : Program) : String :=
  Line.renderAll (p.fieldLines ++ p.methodLines)

/-- How templates are filled. -/
abbrev Filler := Template → List (String × String) → Except TemplateError String

/-- The text before the members. -/
def headerText (p : Program) (fill : Filler) (options : Options) (t : Tree) (project : String) :
    Except TemplateError String := do
  let smo ← if options.useSmo then fill .smoUsing [] else .ok ""
  let tables ←
    match options.sqlMode with
    | .sql2008 => fill .tableParameters []
    | .sql2005 => .ok ""
  fill .header [
    ("main_function", p.entryPoint),
    ("namespace", CSharp.sanitize project),
    ("package_name", t.root.name.getD project),
    ("sql_smo_using", smo),
    ("table_param_static", tables)]

/-- The whole text of a program. -/
def source (p : Program) (fill : Filler) (options : Options) (t : Tree) (project : String) :
    Except TemplateError String := do
  let header ← p.headerText fill options t project
  let footer ← fill .footer []
  return header ++ p.memberText ++ footer

end Program

/-! ## Packages -/

/-- Why a package does not become a program. -/
inductive CompileError
  /-- The text is not a well-formed document. -/
  | malformed
  | noExecutables
  | template (e : TemplateError)
  deriving DecidableEq, Repr

/-- An error in words. -/
def CompileError.message : CompileError → String
  | .malformed => "malformed input"
  | .noExecutables => "no executables found in package"
  | .template e => e.message

/-- What a package becomes. -/
structure Output where
  source : String
  program : Program
  warnings : List Warning
  deriving DecidableEq, Repr

/-- The program of a package that was read. -/
def compileReading (fill : Program.Filler) (options : Options) (project : String)
    (reading : Reading) : Except CompileError Output :=
  match Program.ofTree? options reading.tree with
  | none => .error .noExecutables
  | some program =>
    match program.source fill options reading.tree project with
    | .error e => .error (.template e)
    | .ok source => .ok ⟨source, program, reading.warnings⟩

/-- The program of a package, with the given way to fill templates. -/
def compileWith (fill : Program.Filler) (settings : Settings) (project text : String) :
    Except CompileError Output :=
  match Reading.ofText? { precedence := settings.precedence } text with
  | none => .error .malformed
  | some reading => compileReading fill settings.options project reading

/-- The program of a package. -/
def compile (settings : Settings) (project text : String) : Except CompileError Output :=
  compileWith Template.fill settings project text

end SsisCompiler.Compile
