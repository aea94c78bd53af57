import SsisCompiler.Files.Disk

/-!
# Stores

What a program needs of the files around it, whatever they are: the files of a system, or a disk that
is only a value. What can be done by other means is not part of a store but defined for all of them.
-/

namespace SsisCompiler.Files

/-- What is being done with a file or a folder. -/
inductive FileAction
  | read
  /-- Making a folder, or making a file before its text is written. -/
  | create
  | write
  deriving DecidableEq, Repr

/-- A failed action in words. -/
def FileAction.message : FileAction → String
  | .read => "failed to read"
  | .create => "failed to create"
  | .write => "failed to write"

/-- Reading and writing files. -/
structure Store (m : Type → Type) where
  /-- The text of a file. -/
  readText : String → m (Except FileError String)
  /-- Writes a file, given its path and its text. It is made first, so there are two actions that may
  fail. -/
  writeText : String → String → m (Option (FileAction × FileError))
  /-- Makes a folder, which must not be there, inside a folder that is. -/
  makeFolder : String → m (Option FileError)
  /-- Whether a path leads to a folder. -/
  isFolder : String → m Bool

namespace Store

/-- A disk that is only a value, changed by what is done. A file that can be made can be written. -/
def ofDisk : Store (StateM Disk) where
  readText path := fun d => (d.readText path, d)
  writeText path text := fun d =>
    match d.writeText path text with
    | .ok d => (none, d)
    | .error e => (some (.create, e), d)
  makeFolder path := fun d =>
    match d.makeFolder path with
    | .ok d => (none, d)
    | .error e => (some e, d)
  isFolder path := fun d => (d.isFolder path, d)

section

variable {m : Type → Type} [Monad m]

/-- Makes a folder inside a folder that is there; it is no error that it is there already. -/
def ensureFolder (store : Store m) (path : String) : m (Option FileError) := do
  match ← store.makeFolder path with
  | none => pure none
  | some e => if ← store.isFolder path then pure none else pure (some e)

/-- Makes a folder and the folders on the way to it, up to a number of them. -/
def ensureWithin (store : Store m) : Nat → String → m (Option FileError)
  | 0, _ => pure none
  | limit + 1, path =>
    if path.isEmpty then pure none
    else do
      match ← store.ensureFolder path with
      | some .notFound =>
        match ← store.ensureWithin limit (parent path) with
        | some e => pure (some e)
        | none => store.ensureFolder path
      | outcome => pure outcome

/-- Makes a folder and the folders on the way to it. What was made before an error stays. -/
def ensureFolders (store : Store m) (path : String) : m (Option FileError) :=
  store.ensureWithin ((segments path).length + 1) path

end

end Store

end SsisCompiler.Files
