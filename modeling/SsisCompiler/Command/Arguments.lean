import SsisCompiler.Compile.Options

/-!
# Arguments of the command

One package, and options in any order. The value of an option is the next argument, or stands behind an
equals sign, or right behind a one-letter option. Behind `--` every argument is a package. An argument
that is not understood, a value that is no choice, and anything given twice is a misuse.
-/

namespace SsisCompiler.Command

open Compile (SqlMode)
open Package (Precedence)

/-- What the arguments ask for. -/
structure Arguments where
  package : String
  output : Option String := none
  sqlMode : Option SqlMode := none
  noSmo : Bool := false
  project : Option String := none
  precedence : Option Precedence := none
  dumpTree : Bool := false
  deriving DecidableEq, Repr

/-- The options that have a value. -/
inductive ValueOption
  | output
  | sqlMode
  | project
  | precedence
  deriving DecidableEq, Repr

/-- The options without a value. -/
inductive Flag
  | noSmo
  | dumpTree
  | version
  | help
  deriving DecidableEq, Repr

/-- What a run of the command is for. -/
inductive Invocation
  | run (arguments : Arguments)
  | version
  | help
  | misuse
  deriving DecidableEq, Repr

/-- The arguments read so far. -/
structure Draft where
  package : Option String := none
  output : Option String := none
  sqlMode : Option SqlMode := none
  noSmo : Bool := false
  project : Option String := none
  precedence : Option Precedence := none
  dumpTree : Bool := false
  deriving DecidableEq, Repr

/-! ## Values -/

/-- The server version that an option names. -/
def sqlMode? : String → Option SqlMode
  | "sql2008" => some .sql2008
  | "sql2005" => some .sql2005
  | _ => none

/-- The precedence that an option names. -/
def precedence? : String → Option Precedence
  | "last" => some .last
  | "first" => some .first
  | _ => none

/-- A path, which is not empty. -/
def path? (s : String) : Option String :=
  if s.isEmpty then none else some s

/-- A value given once. -/
def once {α : Type} (old new : Option α) : Option (Option α) :=
  match old, new with
  | none, some value => some (some value)
  | _, _ => none

namespace Draft

/-- Sets the value of an option, unless it has one or the value is no choice. -/
def set? (d : Draft) (option : ValueOption) (value : String) : Option Draft :=
  match option with
  | .output => (once d.output (path? value)).map fun v => { d with output := v }
  | .sqlMode => (once d.sqlMode (sqlMode? value)).map fun v => { d with sqlMode := v }
  | .project => (once d.project (some value)).map fun v => { d with project := v }
  | .precedence => (once d.precedence (precedence? value)).map fun v => { d with precedence := v }

/-- Sets the package, unless there is one. -/
def setPackage? (d : Draft) (value : String) : Option Draft :=
  (once d.package (path? value)).map fun v => { d with package := v }

/-- What the arguments ask for, once all are read. -/
def finish (d : Draft) : Invocation :=
  match d.package with
  | none => .misuse
  | some package =>
    .run ⟨package, d.output, d.sqlMode, d.noSmo, d.project, d.precedence, d.dumpTree⟩

end Draft

/-! ## Options -/

/-- An option by its long name. -/
def longOption? : String → Option (ValueOption ⊕ Flag)
  | "output" => some (.inl .output)
  | "sql-mode" => some (.inl .sqlMode)
  | "project-name" => some (.inl .project)
  | "content-precedence" => some (.inl .precedence)
  | "no-smo" => some (.inr .noSmo)
  | "dump-tree" => some (.inr .dumpTree)
  | "version" => some (.inr .version)
  | "help" => some (.inr .help)
  | _ => none

/-- An option by its letter. -/
def shortOption? : Char → Option (ValueOption ⊕ Flag)
  | 'o' => some (.inl .output)
  | 'V' => some (.inr .version)
  | 'h' => some (.inr .help)
  | _ => none

/-- An argument by its form. -/
inductive Form
  /-- Two hyphens alone. -/
  | onlyPackages
  | flag (flag : Flag)
  /-- An option with the value that came in the same argument, if one did. -/
  | option (option : ValueOption) (value : Option String)
  | plain
  | unknown
  deriving DecidableEq, Repr

/-- A text split behind its first equals sign. -/
def splitValue (cs : List Char) : String × Option String :=
  match cs.dropWhile (· != '=') with
  | [] => (String.ofList cs, none)
  | _ :: value => (String.ofList (cs.takeWhile (· != '=')), some (String.ofList value))

/-- The value that stands right behind a one-letter option. -/
def attachedValue : List Char → Option String
  | [] => none
  | '=' :: cs => some (String.ofList cs)
  | cs => some (String.ofList cs)

/-- The form of an argument. -/
def formOf (argument : String) : Form :=
  match argument.toList with
  | ['-', '-'] => .onlyPackages
  | '-' :: '-' :: cs =>
    let (name, value) := splitValue cs
    match longOption? name, value with
    | some (.inl option), value => .option option value
    | some (.inr flag), none => .flag flag
    | _, _ => .unknown
  | '-' :: c :: cs =>
    match shortOption? c with
    | some (.inl option) => .option option (attachedValue cs)
    | some (.inr flag) => .flag flag
    | none => .unknown
  | _ => .plain

/-! ## Reading -/

/-- Reads arguments that are all packages. -/
def readPackages (d : Draft) : List String → Invocation
  | [] => d.finish
  | argument :: rest =>
    match d.setPackage? argument with
    | some d => readPackages d rest
    | none => .misuse

/-- Reads arguments. The second argument is the option that waits for its value. -/
def read (d : Draft) : Option ValueOption → List String → Invocation
  | none, [] => d.finish
  | some _, [] => .misuse
  | some option, argument :: rest =>
    match formOf argument with
    | .plain =>
      match d.set? option argument with
      | some d => read d none rest
      | none => .misuse
    | _ => .misuse
  | none, argument :: rest =>
    match formOf argument with
    | .onlyPackages => readPackages d rest
    | .flag .version => .version
    | .flag .help => .help
    | .flag .noSmo => if d.noSmo then .misuse else read { d with noSmo := true } none rest
    | .flag .dumpTree => if d.dumpTree then .misuse else read { d with dumpTree := true } none rest
    | .option option none => read d (some option) rest
    | .option option (some value) =>
      match d.set? option value with
      | some d => read d none rest
      | none => .misuse
    | .plain =>
      match d.setPackage? argument with
      | some d => read d none rest
      | none => .misuse
    | .unknown => .misuse

/-- What the arguments of a run ask for. -/
def Invocation.ofArguments (arguments : List String) : Invocation :=
  read {} none arguments

end SsisCompiler.Command
