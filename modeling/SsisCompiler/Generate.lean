import SsisCompiler.Compile.Program
import SsisCompiler.Files.Store
import SsisCompiler.Sha256

/-!
# Writing a program to files

A package file becomes a folder with the program and the sources of its scripts. The folder is touched
only when the whole package has been compiled. A script whose name would lead out of its own folder is
left out.
-/

namespace SsisCompiler

open Compile (CompileError Output Script Settings)
open Files (FileAction FileError Store)

/-- The file of the program. -/
def programFile : String := "program.cs"

/-- The folder of the scripts, each in a folder of its method's name. -/
def scriptsFolder : String := "scripts"

/-- What is to be written. -/
structure Request where
  /-- The file of the package. -/
  package : String
  /-- The folder to write into. -/
  output : String
  settings : Settings := {}
  /-- The name of the project; without one it is the name of the package file. -/
  project : Option String := none
  deriving Repr

/-- Why nothing, or not everything, was written. -/
inductive GenerateError
  | file (action : FileAction) (path : String) (cause : FileError)
  | compile (e : CompileError)
  deriving DecidableEq, Repr

/-- An error in words. -/
def GenerateError.message : GenerateError → String
  | .file action path cause => action.message ++ " " ++ path ++ ": " ++ cause.message
  | .compile e => e.message

/-- What was written. -/
structure Generated where
  /-- The path of the program. -/
  program : String
  output : Output
  /-- The checksum of the program's text. -/
  checksum : String
  /-- The paths of the scripts. -/
  scripts : List String
  deriving Repr

/-- The name of the project. -/
def Request.projectName (r : Request) : String :=
  match r.project with
  | some name => name
  | none => (Files.fileStem? r.package).getD "Package"

/-- The path of a script below the output folder. Backslashes divide folders too; a path that starts at
the top or goes up is none, and neither is an empty one. -/
def scriptPath? (method fileName : String) : Option String :=
  let relative := String.ofList (fileName.toList.map fun c => if c == '\\' then '/' else c)
  if relative.isEmpty || Files.isAbsolute relative || (Files.segments relative).contains ".." then
    none
  else some (Files.join (Files.join scriptsFolder method) relative)

section

variable {m : Type → Type} [Monad m]

/-- Writes scripts below a folder; the result is the paths written. -/
def writeScripts (store : Store m) (folder : String) :
    List Script → m (Except GenerateError (List String))
  | [] => pure (.ok [])
  | script :: rest =>
    match scriptPath? script.method script.fileName with
    | none => writeScripts store folder rest
    | some relative => do
      let path := Files.join folder relative
      let around := Files.parent path
      match ← store.ensureFolders around with
      | some e => pure (.error (.file .create around e))
      | none =>
        match ← store.writeText path script.text with
        | some (action, e) => pure (.error (.file action path e))
        | none =>
          match ← writeScripts store folder rest with
          | .error e => pure (.error e)
          | .ok paths => pure (.ok (path :: paths))

/-- Writes a compiled package into a folder. -/
def writeOutput (store : Store m) (folder : String) (output : Output) :
    m (Except GenerateError Generated) := do
  match ← store.ensureFolders folder with
  | some e => pure (.error (.file .create folder e))
  | none =>
    let program := Files.join folder programFile
    match ← store.writeText program output.source with
    | some (action, e) => pure (.error (.file action program e))
    | none =>
      match ← writeScripts store folder output.program.scripts with
      | .error e => pure (.error e)
      | .ok scripts => pure (.ok ⟨program, output, Sha256.checksum output.source, scripts⟩)

/-- Compiles a package file and writes what it becomes. -/
def generate (store : Store m) (r : Request) : m (Except GenerateError Generated) := do
  match ← store.readText r.package with
  | .error e => pure (.error (.file .read r.package e))
  | .ok text =>
    match Compile.compile r.settings r.projectName text with
    | .error e => pure (.error (.compile e))
    | .ok output => writeOutput store r.output output

end

end SsisCompiler
