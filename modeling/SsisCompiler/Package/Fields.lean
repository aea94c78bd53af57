/-!
# Named values in order

Names with values, each name at most once, in the order in which the names first came. Storing a
value under a name that is there keeps the name's place.
-/

namespace SsisCompiler.Package

/-- Named values, in the order of their first appearance. -/
abbrev Fields := List (String × String)

namespace Fields

/-- The value of a name. -/
def get? (fields : Fields) (name : String) : Option String :=
  List.lookup name fields

/-- Stores a value: in place of the old one if the name is there, else at the end. -/
def insert (name value : String) : Fields → Fields
  | [] => [(name, value)]
  | (n, v) :: rest =>
    if n == name then (name, value) :: rest else (n, v) :: insert name value rest

/-- The names, in order. -/
def names (fields : Fields) : List String :=
  fields.map (·.1)

/-- The fields that a list of pairs gives, taken one after the other. -/
def ofList (pairs : List (String × String)) : Fields :=
  pairs.foldl (fun fields pair => insert pair.1 pair.2 fields) []

end Fields

/-- Adds a name to a set of names kept in order. -/
def addName (name : String) (names : List String) : List String :=
  if names.contains name then names else names ++ [name]

/-- Removes a name from a set of names kept in order. -/
def removeName (name : String) (names : List String) : List String :=
  names.filter (· != name)

end SsisCompiler.Package
