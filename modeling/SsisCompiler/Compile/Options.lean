import SsisCompiler.Package.Reading
import SsisCompiler.Text.Basic

/-!
# Options

What a user may choose, and how the choices are read from an environment.
-/

namespace SsisCompiler.Compile

open Package (Precedence)

/-- The version of the server that a program is made for. -/
inductive SqlMode
  /-- A server that takes tables as parameters. -/
  | sql2008
  | sql2005
  deriving DecidableEq, Repr, Inhabited

/-- What a user may choose about a program. -/
structure Options where
  sqlMode : SqlMode := .sql2008
  /-- Whether statements run through management objects where they can. -/
  useSmo : Bool := true
  deriving DecidableEq, Repr, Inhabited

/-- All that a user may choose. -/
structure Settings where
  options : Options := {}
  /-- Which piece of text an element of a package keeps. -/
  precedence : Precedence := .last
  deriving DecidableEq, Repr, Inhabited

/-- A variable of the environment with a value that is no choice. -/
inductive SettingsError
  | sqlMode
  | useSmo
  | precedence
  deriving DecidableEq, Repr

namespace SettingsError

/-- The variable at fault. -/
def variableName : SettingsError → String
  | .sqlMode => "DESSIST_SQL_MODE"
  | .useSmo => "DESSIST_USE_SMO"
  | .precedence => "DESSIST_CONTENT_PRECEDENCE"

/-- What the variable may be. -/
def expected : SettingsError → String
  | .sqlMode => "must be sql2008 or sql2005"
  | .useSmo => "must be true or false"
  | .precedence => "must be last or first"

/-- An error in words. -/
def message (e : SettingsError) : String :=
  "invalid value for " ++ e.variableName ++ ": " ++ e.expected

end SettingsError

/-- Reads a server version in any letter case. -/
def SqlMode.ofText (s : String) : Except SettingsError SqlMode :=
  match Text.lower s with
  | "sql2008" => .ok .sql2008
  | "2008" => .ok .sql2008
  | "sql2005" => .ok .sql2005
  | "2005" => .ok .sql2005
  | _ => .error .sqlMode

/-- The name of a server version. -/
def SqlMode.name : SqlMode → String
  | .sql2008 => "sql2008"
  | .sql2005 => "sql2005"

/-- Reads a yes or a no in any letter case. -/
def choice? (s : String) : Option Bool :=
  match Text.lower (Text.trim s) with
  | "true" => some true
  | "1" => some true
  | "yes" => some true
  | "false" => some false
  | "0" => some false
  | "no" => some false
  | _ => none

/-- The value of a variable of the environment, or what holds without it. -/
def fromVariable {α : Type} (environment : String → Option String) (name : String) (fallback : α)
    (read : String → Except SettingsError α) : Except SettingsError α :=
  match environment name with
  | some value => read value
  | none => .ok fallback

/-- The choices made by an environment. -/
def Settings.ofEnvironment (environment : String → Option String) :
    Except SettingsError Settings := do
  let sqlMode ← fromVariable environment SettingsError.sqlMode.variableName .sql2008 SqlMode.ofText
  let useSmo ← fromVariable environment SettingsError.useSmo.variableName true fun value =>
    match choice? value with
    | some b => .ok b
    | none => .error .useSmo
  let precedence ←
    fromVariable environment SettingsError.precedence.variableName .last fun value =>
      match Precedence.ofText value with
      | .ok p => .ok p
      | .error _ => .error .precedence
  return ⟨⟨sqlMode, useSmo⟩, precedence⟩

end SsisCompiler.Compile
