import SsisCompiler.Files.Path

/-!
# Folders

A folder is a value: a chain of named files and folders. Where two entries have one name, the first
counts. A place below a folder is the list of the names on the way to it.
-/

namespace SsisCompiler.Files

/-- The files and folders in a folder. A file has its text; there is none if its bytes are not text. -/
inductive Folder
  | empty
  | file (name : String) (text : Option String) (rest : Folder)
  | folder (name : String) (inside rest : Folder)
  deriving DecidableEq, Repr, Inhabited

/-- What has a name in a folder. -/
inductive Entry
  | file (text : Option String)
  | folder (inside : Folder)
  deriving DecidableEq, Repr

/-- A place below a folder: the names on the way to it. -/
abbrev Location := List String

namespace Folder

/-! ## Names in a folder -/

/-- What has a name in a folder. -/
def find? (name : String) : Folder → Option Entry
  | empty => none
  | file other text rest => if other == name then some (.file text) else rest.find? name
  | folder other inside rest => if other == name then some (.folder inside) else rest.find? name

/-- A folder with one entry before its others. -/
def add (name : String) (entry : Entry) (f : Folder) : Folder :=
  match entry with
  | .file text => file name text f
  | .folder inside => folder name inside f

/-- Gives a name in a folder to an entry. It takes the place of what had the name, or the last one. -/
def set (name : String) (entry : Entry) : Folder → Folder
  | empty => empty.add name entry
  | file other text rest =>
    if other == name then rest.add name entry else file other text (rest.set name entry)
  | folder other inside rest =>
    if other == name then rest.add name entry else folder other inside (rest.set name entry)

/-- The folder that has a name in a folder, which is empty if there is none. -/
def inside (f : Folder) (name : String) : Folder :=
  match f.find? name with
  | some (.folder inside) => inside
  | _ => empty

/-! ## Places below a folder -/

/-- What lies at a place. -/
def entry? (f : Folder) : Location → Option Entry
  | [] => some (.folder f)
  | [name] => f.find? name
  | name :: rest =>
    match f.find? name with
    | some (.folder inside) => inside.entry? rest
    | _ => none

/-- Puts an entry at a place. Folders on the way to it that are not there are made. -/
def put (f : Folder) (entry : Entry) : Location → Folder
  | [] => f
  | [name] => f.set name entry
  | name :: rest => f.set name (.folder ((f.inside name).put entry rest))

/-- The files below a folder, with their places. -/
def files : Folder → List (Location × Option String)
  | empty => []
  | file name text rest => ([name], text) :: rest.files
  | folder name inside rest => inside.files.map (fun f => (name :: f.1, f.2)) ++ rest.files

/-- The files with text of a folder that another folder does not have the same: their paths and
texts. -/
def changes (before after : Folder) : List (String × String) :=
  after.files.filterMap fun (location, text) =>
    if before.entry? location == some (.file text) then none
    else text.map (ofSegments location, ·)

end Folder

end SsisCompiler.Files
