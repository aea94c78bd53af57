import SsisCompiler.Command.Arguments
import SsisCompiler.Generate
import SsisCompiler.Package.Dump
import SsisCompiler.Text.Quoted

/-!
# Running the command

The arguments are read first, then the environment, and then the work is done: a package is compiled
into a folder, or shown as a tree.
-/

namespace SsisCompiler.Command

open Compile (Settings)
open Files (Store)

/-- What a run of the command leaves. -/
structure Outcome where
  /-- Zero after success, one after a failure, two after a misuse. -/
  exitCode : Nat
  /-- The text for the standard output. -/
  stdout : String := ""
  /-- The messages for the standard error, each ended by a line end. -/
  stderr : List String := []
  deriving DecidableEq, Repr

/-- The name and the version of the command. -/
def versionText : String := "dessist 1.0.0\n"

/-- How the command is used. -/
def usageText : String := "\n".intercalate [
  "Usage: dessist [OPTIONS] <PACKAGE>",
  "",
  "Options:",
  "  -o, --output <DIR>                 Output folder",
  "      --sql-mode <MODE>              sql2008 or sql2005",
  "      --no-smo                       Emit plain SqlCommand calls",
  "      --project-name <NAME>          Namespace of the generated program",
  "      --content-precedence <WHICH>   last or first",
  "      --dump-tree                    Print the tree as JSON and exit",
  "  -h, --help                         Print help",
  "  -V, --version                      Print version",
  ""]

/-- A failure with its message. -/
def failure (message : String) : Outcome :=
  { exitCode := 1, stderr := [message] }

/-- The choices of an environment, overruled by those of the arguments. -/
def overrule (settings : Settings) (a : Arguments) : Settings where
  options := {
    sqlMode := a.sqlMode.getD settings.options.sqlMode
    useSmo := settings.options.useSmo && !a.noSmo }
  precedence := a.precedence.getD settings.precedence

/-- The messages after a package was written. -/
def successMessages (g : Generated) : List String :=
  g.output.warnings.map ("Warning: " ++ ·.message)
    ++ g.output.program.diagnostics.map ("Warning: " ++ ·.text)
    ++ [
      "Translation successful:",
      "  Entry point: " ++ g.output.program.entryPoint,
      "  Functions: " ++ toString g.output.program.methodCount,
      "  Variables: " ++ toString g.output.program.fields.length,
      "  Script files: " ++ toString g.scripts.length,
      "  Checksum: " ++ g.checksum]

section

variable {m : Type → Type} [Monad m]

/-- Shows a package as a tree. -/
def dumpTree (store : Store m) (settings : Settings) (package : String) : m Outcome := do
  match ← store.readText package with
  | .error e => pure (failure ("Error reading package " ++ Text.quoted package ++ ": " ++ e.message))
  | .ok text =>
    match Package.Reading.ofText? { precedence := settings.precedence } text with
    | none =>
      pure (failure ("Error parsing package: " ++ Compile.CompileError.malformed.message))
    | some reading => pure { exitCode := 0, stdout := reading.tree.dump ++ "\n" }

/-- Compiles a package into a folder. -/
def compilePackage (store : Store m) (settings : Settings) (a : Arguments) : m Outcome := do
  let output := a.output.getD (Files.withoutExtension a.package)
  let start := "Translating package " ++ a.package ++ " into " ++ output
  let request : Request :=
    { package := a.package, output := output, settings := settings, project := a.project }
  match ← generate store request with
  | .error e => pure { exitCode := 1, stderr := [start, "Translation failed: " ++ e.message] }
  | .ok g =>
    pure { exitCode := 0, stdout := g.program ++ "\n", stderr := start :: successMessages g }

/-- Runs the command. -/
def run (store : Store m) (environment : String → Option String) (arguments : List String) :
    m Outcome :=
  match Invocation.ofArguments arguments with
  | .misuse => pure { exitCode := 2, stderr := [usageText] }
  | .version => pure { exitCode := 0, stdout := versionText }
  | .help => pure { exitCode := 0, stdout := usageText }
  | .run a =>
    match Settings.ofEnvironment environment with
    | .error e => pure (failure ("Error: " ++ e.message))
    | .ok settings =>
      let settings := overrule settings a
      if a.dumpTree then dumpTree store settings a.package else compilePackage store settings a

end

end SsisCompiler.Command
