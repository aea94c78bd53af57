import SsisCompiler.Text.Basic

/-!
# Paths

A path is a text with slashes between its segments, and it keeps its spelling. An empty segment and a
single dot stand for staying where one is; two dots stand for going up.
-/

namespace SsisCompiler.Files

/-- The segments of a path. -/
def segments (path : String) : List String :=
  (Text.split (· == '/') path.toList).map String.ofList

/-- The path with some segments. -/
def ofSegments (list : List String) : String :=
  "/".intercalate list

/-- Whether a path starts at the top of everything. -/
def isAbsolute (path : String) : Bool :=
  path.toList.head? == some '/'

/-- Whether a segment stands for staying. -/
def isIdle (segment : String) : Bool :=
  segment.isEmpty || segment == "."

/-- The bytes that a name may have. -/
def nameLimit : Nat := 255

/-- The bytes that a path may have. -/
def pathLimit : Nat := 4095

/-- A path followed from another one. -/
def join (base path : String) : String :=
  if isAbsolute path then path
  else if base.isEmpty || base.toList.getLast? == some '/' then base ++ path
  else base ++ "/" ++ path

/-- The path of the folder that a path lies in. -/
def parent (path : String) : String :=
  let front := ((segments path).reverse.dropWhile isIdle).drop 1
  match front.dropWhile isIdle with
  | [] => if isAbsolute path then "/" else ""
  | rest => ofSegments rest.reverse

/-! ## Names of files -/

/-- The name at the end of a path; going up is no name. -/
def fileName? (path : String) : Option String :=
  match (segments path).reverse.dropWhile isIdle with
  | [] => none
  | name :: _ => if name == ".." then none else some name

/-- A name split at its last dot, unless the dot is its first character. -/
def splitExtension (name : String) : String × Option String :=
  match Text.breakOn ['.'] name.toList.reverse with
  | none => (name, none)
  | some (_, []) => (name, none)
  | some (extension, stem) => (String.ofList stem.reverse, some (String.ofList extension.reverse))

/-- The name at the end of a path without its extension. -/
def fileStem? (path : String) : Option String :=
  (fileName? path).map fun name => (splitExtension name).1

/-- The extension of the name at the end of a path. -/
def extension? (path : String) : Option String :=
  (fileName? path).bind fun name => (splitExtension name).2

/-- A path that ends with the stem of its name. -/
def cutAfterStem (path : String) : String :=
  match (segments path).reverse.dropWhile isIdle, fileStem? path with
  | _ :: front, some stem => ofSegments (front.reverse ++ [stem])
  | _, _ => path

/-- A path without its extension: the extension is taken off the end of the text, and what is left of
the name is cut after its stem. -/
def withoutExtension (path : String) : String :=
  match extension? path with
  | none => cutAfterStem path
  | some extension =>
    let cs := path.toList
    cutAfterStem (String.ofList (cs.take (cs.length - extension.length)))

end SsisCompiler.Files
