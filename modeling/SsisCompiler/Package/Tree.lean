import SsisCompiler.Package.Fields
import SsisCompiler.Text.Basic

/-!
# Package trees

A package is a tree of nodes, each node known by its number. The root has the number zero, and every
further node is entered with the number of its parent. A node's children are the nodes entered under
it, in order: they are read off the entries and not stored a second time.

A node may be entered under a number that no node has. The number is kept, but no node gets a child by
it, not even a node that takes the number later; only a node entered under its own number counts as
its own child. A number that no node has is read as the root.
-/

namespace SsisCompiler.Package

/-- The number of a node. -/
abbrev NodeId := Nat

/-- What is known of one element of a package. -/
structure Node where
  /-- The tag as written, such as `DTS:Executable`. -/
  kind : String
  /-- The name that the element shows. -/
  name : Option String := none
  attributes : Fields := []
  /-- The values of the property markers inside the element. -/
  properties : Fields := []
  /-- The properties whose value is an expression to be computed at run time. -/
  expressions : List String := []
  /-- The text that stands directly in the element. -/
  content : Option String := none
  deriving DecidableEq, Repr, Inhabited

namespace Node

/-- The kind without its prefix. -/
def localKind (node : Node) : String :=
  Text.afterLast ':' node.kind

/-- The value of the attribute with this name, or else of the first attribute whose name without its
prefix is this. -/
def attribute? (node : Node) (name : String) : Option String :=
  match node.attributes.get? name with
  | some value => some value
  | none => (node.attributes.find? fun field => Text.afterLast ':' field.1 == name).map (·.2)

/-- The value of a property, or else of an attribute. -/
def lookup (node : Node) (name : String) : Option String :=
  match node.properties.get? name with
  | some value => some value
  | none => node.attribute? name

/-- Whether a property's value is an expression. -/
def isExpression (node : Node) (name : String) : Bool :=
  node.expressions.contains name

/-- How messages speak of a node. -/
def label (node : Node) : String :=
  match node.name with
  | some name => node.kind ++ " '" ++ name ++ "'"
  | none => node.kind

end Node

/-- A node entered into a tree, with the number of its parent. -/
structure Entry where
  parent : NodeId
  node : Node
  deriving DecidableEq, Repr, Inhabited

/-- A root and the nodes entered below it; the entry at place `i` has the number `i + 1`. -/
structure Tree where
  root : Node
  entries : Array Entry := #[]
  deriving DecidableEq, Repr, Inhabited

namespace Tree

/-! ## Nodes -/

/-- How many nodes a tree has. -/
def size (t : Tree) : Nat :=
  t.entries.size + 1

/-- The number under which a node is read: its own if it is in the tree, else the root's. -/
def resolve (t : Tree) (id : NodeId) : NodeId :=
  if id < t.size then id else 0

/-- The entry of a node; the root has none. -/
def entry? (t : Tree) : NodeId → Option Entry
  | 0 => none
  | id + 1 => t.entries[id]?

/-- The node with a number; the root for a number that is not in the tree. -/
def node (t : Tree) (id : NodeId) : Node :=
  match t.entry? id with
  | some entry => entry.node
  | none => t.root

/-- The number that a node was entered under. -/
def parent? (t : Tree) (id : NodeId) : Option NodeId :=
  (t.entry? id).map (·.parent)

/-- A tree with one more node. Its number is the old tree's size. -/
def add (t : Tree) (parent : NodeId) (node : Node) : Tree :=
  { t with entries := t.entries.push ⟨parent, node⟩ }

/-! ## Children -/

/-- The children of a node, in order. -/
def children (t : Tree) (id : NodeId) : List NodeId :=
  let p := t.resolve id
  (List.range' p (t.size - p)).filter fun i => t.parent? i == some p

/-- The children of a node that have a given kind. -/
def childrenOfKind (t : Tree) (id : NodeId) (kind : String) : List NodeId :=
  (t.children id).filter fun i => (t.node i).kind == kind

/-- The first child of a given kind. -/
def firstChildOfKind? (t : Tree) (id : NodeId) (kind : String) : Option NodeId :=
  (t.childrenOfKind id kind).head?

/-- The place of a node among its parent's children; zero where it is none of them. -/
def siblingIndex (t : Tree) (id : NodeId) : Nat :=
  match t.parent? id with
  | none => 0
  | some parent => ((t.children parent).idxOf? id).getD 0

/-! ## Descendants and ancestors -/

/-- The nodes below a node down to a depth, each before those below it. -/
def descendantsWithin (t : Tree) : Nat → NodeId → List NodeId
  | 0, _ => []
  | depth + 1, id => (t.children id).flatMap fun i => i :: t.descendantsWithin depth i

/-- The nodes below a node, each before those below it. No tree is deeper than its size. -/
def descendants (t : Tree) (id : NodeId) : List NodeId :=
  t.descendantsWithin t.size id

/-- The first node below a node whose kind without its prefix is the given one. -/
def findDescendant? (t : Tree) (id : NodeId) (localKind : String) : Option NodeId :=
  (t.descendants id).find? fun i => (t.node i).localKind == localKind

/-- The numbers reached by going from parent to parent, up to a number of steps. -/
def ancestorsWithin (t : Tree) : Nat → NodeId → List NodeId
  | 0, _ => []
  | steps + 1, id =>
    match t.parent? id with
    | none => []
    | some parent => parent :: t.ancestorsWithin steps parent

/-- The numbers reached by going from parent to parent, the nearest first. -/
def ancestors (t : Tree) (id : NodeId) : List NodeId :=
  t.ancestorsWithin t.size id

end Tree

end SsisCompiler.Package
