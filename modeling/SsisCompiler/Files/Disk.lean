import SsisCompiler.Files.Folder

/-!
# Disks

Everything there is, with the folder that one works in. A path is followed segment by segment, from the
top or from the working folder, and every segment but the last has to lead to a folder. The first
segment that leads nowhere decides the error.

There are files and folders and nothing else. In particular there are no links: what is below a folder
is reached through that folder only, and going up from a place leads back along the way to it.
-/

namespace SsisCompiler.Files

/-! ## Errors -/

/-- Why something cannot be done with a file or a folder. -/
inductive FileError
  | notFound
  | alreadyExists
  | isFolder
  | notFolder
  /-- A name, or a whole path, has too many bytes. -/
  | nameTooLong
  /-- A path holds the character zero. -/
  | zeroInPath
  /-- The bytes of a file are not text. -/
  | notText
  /-- Anything else that a system may report. -/
  | other (report : String)
  deriving DecidableEq, Repr

/-- An error in words. -/
def FileError.message : FileError → String
  | .notFound => "No such file or directory (os error 2)"
  | .alreadyExists => "File exists (os error 17)"
  | .isFolder => "Is a directory (os error 21)"
  | .notFolder => "Not a directory (os error 20)"
  | .nameTooLong => "File name too long (os error 36)"
  | .zeroInPath => "file name contained an unexpected NUL byte"
  | .notText => "stream did not contain valid UTF-8"
  | .other report => report

/-! ## Following segments -/

/-- A folder that has been reached, and the way to it: each name with the folder that it was found in,
the last one first. -/
structure Place where
  folder : Folder
  trail : List (String × Folder) := []
  deriving Repr

namespace Place

/-- Where a place is, seen from the start of its trail. -/
def location (p : Place) : Location :=
  (p.trail.map (·.1)).reverse

/-- The place around a place. There is nothing around the start of a trail, so one stays there. -/
def up (p : Place) : Place :=
  match p.trail with
  | [] => p
  | (_, around) :: trail => ⟨around, trail⟩

/-- What has a name at a place, if the name may be looked for at all. -/
def find? (p : Place) (name : String) : Except FileError (Option Entry) :=
  if nameLimit < name.utf8ByteSize then .error .nameTooLong else .ok (p.folder.find? name)

/-- The place that is one segment away from another. -/
def step (p : Place) (segment : String) : Except FileError Place :=
  if isIdle segment then .ok p
  else if segment == ".." then .ok p.up
  else
    match p.find? segment with
    | .error e => .error e
    | .ok none => .error .notFound
    | .ok (some (.file _)) => .error .notFolder
    | .ok (some (.folder inside)) => .ok ⟨inside, (segment, p.folder) :: p.trail⟩

/-- The place that some segments lead to. -/
def follow (p : Place) : List String → Except FileError Place
  | [] => .ok p
  | segment :: rest =>
    match p.step segment with
    | .error e => .error e
    | .ok next => next.follow rest

end Place

/-- The files and folders of a system without links. -/
structure Disk where
  /-- The folder at the top. -/
  root : Folder := .empty
  /-- Where the working folder is. -/
  working : Location := []
  deriving DecidableEq, Repr, Inhabited

/-- What a path leads to. -/
inductive Target
  /-- A folder, which is there. -/
  | folder (place : Place)
  /-- A name at a place, where nothing need have it, and whether a slash follows the name. -/
  | entry (place : Place) (name : String) (closed : Bool)
  deriving Repr

namespace Disk

/-- Where a path starts. -/
def start (d : Disk) (path : String) : Except FileError Place :=
  let top : Place := { folder := d.root }
  if isAbsolute path then .ok top else top.follow d.working

/-- What a path leads to. Its text is looked at before anything else is. -/
def locate (d : Disk) (path : String) : Except FileError Target :=
  if path.toList.contains '\x00' then .error .zeroInPath
  else if path.isEmpty then .error .notFound
  else if pathLimit < path.utf8ByteSize then .error .nameTooLong
  else
    match d.start path with
    | .error e => .error e
    | .ok start =>
      match (segments path).reverse.dropWhile (·.isEmpty) with
      | [] => .ok (.folder start)
      | last :: front =>
        match start.follow front.reverse with
        | .error e => .error e
        | .ok place =>
          if last == "." then .ok (.folder place)
          else if last == ".." then .ok (.folder place.up)
          else .ok (.entry place last (path.toList.getLast? == some '/'))

/-- Puts an entry under a name at a place. -/
def put (d : Disk) (place : Place) (name : String) (entry : Entry) : Disk :=
  { d with root := d.root.put entry (place.location ++ [name]) }

/-! ## Reading and writing -/

/-- Whether a path leads to a folder. -/
def isFolder (d : Disk) (path : String) : Bool :=
  match d.locate path with
  | .error _ => false
  | .ok (.folder _) => true
  | .ok (.entry place name _) =>
    match place.find? name with
    | .ok (some (.folder _)) => true
    | _ => false

/-- The text of a file. -/
def readText (d : Disk) (path : String) : Except FileError String :=
  match d.locate path with
  | .error e => .error e
  | .ok (.folder _) => .error .isFolder
  | .ok (.entry place name closed) =>
    match place.find? name with
    | .error e => .error e
    | .ok none => .error .notFound
    | .ok (some (.folder _)) => .error .isFolder
    | .ok (some (.file text)) =>
      if closed then .error .notFolder
      else
        match text with
        | some text => .ok text
        | none => .error .notText

/-- The disk with a file of the given text; a file that is there is replaced. -/
def writeText (d : Disk) (path text : String) : Except FileError Disk :=
  match d.locate path with
  | .error e => .error e
  | .ok (.folder _) => .error .isFolder
  | .ok (.entry place name closed) =>
    if closed then .error .isFolder
    else
      match place.find? name with
      | .error e => .error e
      | .ok (some (.folder _)) => .error .isFolder
      | .ok _ => .ok (d.put place name (.file (some text)))

/-- The disk with one more folder, which must not be there. -/
def makeFolder (d : Disk) (path : String) : Except FileError Disk :=
  match d.locate path with
  | .error e => .error e
  | .ok (.folder _) => .error .alreadyExists
  | .ok (.entry place name _) =>
    match place.find? name with
    | .error e => .error e
    | .ok (some _) => .error .alreadyExists
    | .ok none => .ok (d.put place name (.folder .empty))

/-! ## The working folder -/

/-- A disk with a folder to work in, at a place of its own. -/
def ofFolder (around : Folder) (location : Location) (f : Folder) : Disk :=
  ⟨around.put (.folder f) location, location⟩

/-- The folder that one works in. -/
def workingFolder (d : Disk) : Folder :=
  match d.root.entry? d.working with
  | some (.folder f) => f
  | _ => .empty

end Disk

end SsisCompiler.Files
