import SsisCompiler.CSharp.Identifier
import SsisCompiler.Package.Tree

/-!
# Names of methods

Each executable gets a method name of its own, made from the name it shows. A name that is taken gets
the least number from two on that makes it free. A node keeps the name that it got first.
-/

namespace SsisCompiler.Compile

open Package (NodeId Tree)

/-- The method names given so far, and every name that a method may not take. -/
structure Names where
  given : List (NodeId × String) := []
  used : List String := []
  deriving DecidableEq, Repr, Inhabited

namespace Names

/-- Whether a method may not take a name: it is used, a keyword, or a member of every program. -/
def isTaken (names : Names) (name : String) : Bool :=
  names.used.contains name || CSharp.keywords.contains name || CSharp.fixedMembers.contains name

/-- How many names are taken at most. -/
def takenBound (names : Names) : Nat :=
  names.used.length + CSharp.keywords.length + CSharp.fixedMembers.length

/-- The first free name: the base itself, or the base with the least number from two on. One more
number than there are taken names is enough to find one. The numbers have no bound. A signed counter of
32 bits finds the same name as long as at most 2 ^ 31 - 3 names are taken. -/
def fresh (names : Names) (base : String) : String :=
  if names.isTaken base then
    let numbers := List.range' 2 (names.takenBound + 1)
    base ++ toString ((numbers.find? fun n => !names.isTaken (base ++ toString n)).getD 0)
  else base

/-- What the name of a node's method is made from: the name that the node shows, or else its kind and
its place among its siblings. -/
def base (t : Tree) (id : NodeId) : String :=
  let node := t.node id
  match node.name with
  | some name =>
    if Text.isAllBlank name then fallback node id else CSharp.sanitize name
  | none => fallback node id
where
  /-- The kind and the place among the siblings. -/
  fallback (node : Package.Node) (id : NodeId) : String :=
    CSharp.sanitize node.localKind ++ "_" ++ toString (t.siblingIndex id)

/-- Keeps methods from taking a name. -/
def reserve (name : String) (names : Names) : Names :=
  { names with used := name :: names.used }

/-- The name of a node's method, given now if the node has none. -/
def give (t : Tree) (id : NodeId) (names : Names) : String × Names :=
  match names.given.lookup id with
  | some name => (name, names)
  | none =>
    let name := names.fresh (base t id)
    (name, ⟨(id, name) :: names.given, name :: names.used⟩)

/-- The names of several nodes' methods, given in order. -/
def giveAll (t : Tree) : List NodeId → Names → List String × Names
  | [], names => ([], names)
  | id :: ids, names =>
    let (name, names) := names.give t id
    let (rest, names) := giveAll t ids names
    (name :: rest, names)

/-- How many nodes have a name. -/
def count (names : Names) : Nat :=
  names.given.length

end Names

end SsisCompiler.Compile
