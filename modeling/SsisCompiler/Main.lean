import SsisCompiler.Command.Run

/-!
# The command

The files, the environment and the streams of the system around the command.
-/

namespace SsisCompiler

open Files (FileAction FileError Store)

/-- An error that has no name here, in the words of the system. -/
def otherError (code : UInt32) (details : String) : FileError :=
  .other (details ++ " (os error " ++ toString code ++ ")")

/-- What a system reports, as an error of this library. -/
def fileErrorOf : IO.Error → FileError
  | .noFileOrDirectory .. => .notFound
  | .alreadyExists .. => .alreadyExists
  | .inappropriateType _ code details =>
    if code == 20 then .notFolder else if code == 21 then .isFolder else otherError code details
  | .permissionDenied _ code details => otherError code details
  | .resourceExhausted _ code details => otherError code details
  | .invalidArgument _ code details =>
    if code == 36 then .nameTooLong else otherError code details
  | e => .other (toString e)

/-- The error of an action, if it fails. -/
def failureOf (action : IO Unit) : IO (Option FileError) := do
  try
    action
    pure none
  catch e => pure (some (fileErrorOf e))

/-- The files of the system. A folder is told from a file by an attempt to read it. -/
def systemStore : Store IO where
  readText path := do
    try
      let file ← IO.FS.Handle.mk path .read
      match String.fromUTF8? (← file.readBinToEnd) with
      | some text => pure (.ok text)
      | none => pure (.error .notText)
    catch e => pure (.error (fileErrorOf e))
  writeText path text := do
    match ← (IO.FS.Handle.mk path .write).toBaseIO with
    | .error e => pure (some (.create, fileErrorOf e))
    | .ok file =>
      let failure ← failureOf do
        file.putStr text
        file.flush
      pure (failure.map (FileAction.write, ·))
  makeFolder path := failureOf (IO.FS.createDir path)
  isFolder path := do
    let failure ← failureOf do
      let file ← IO.FS.Handle.mk path .read
      let _ ← file.read 1
    pure (failure == some .isFolder)

/-- Runs the command with the files and the environment of the system. -/
def runCommand (arguments : List String) : IO UInt32 := do
  let names := [Compile.SettingsError.sqlMode, .useSmo, .precedence].map (·.variableName)
  let values ← names.mapM fun name => do return (name, ← IO.getEnv name)
  let environment := fun name => (values.lookup name).join
  let outcome ← Command.run systemStore environment arguments
  for message in outcome.stderr do
    IO.eprintln message
  IO.print outcome.stdout
  return UInt32.ofNat outcome.exitCode

end SsisCompiler

/-- The entry point of the command. -/
def main (arguments : List String) : IO UInt32 :=
  SsisCompiler.runCommand arguments
