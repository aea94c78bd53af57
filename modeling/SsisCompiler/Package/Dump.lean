import SsisCompiler.Json
import SsisCompiler.Package.Reading

/-!
# Packages shown as JSON

Two views of a tree. The nested view is for reading: an object for each node, holding only what is
there, with its children inside it. The flat view is a record of everything: the list of nodes with
the numbers of their children and parents, and the warnings.
-/

namespace SsisCompiler.Package

/-! ## Nested -/

/-- Fields as an object, in the order of the names. -/
def Fields.toJson (fields : Fields) : Json :=
  .sortedObject (fields.map fun field => (field.1, .text field.2))

/-- A member of an object, left out if it has nothing to show. -/
def optionalMember (key : String) (present : Bool) (value : Json) : List (String × Json) :=
  if present then [(key, value)] else []

/-- A node as an object, given its children as values. -/
def Node.toJson (node : Node) (children : List Json) : Json :=
  .sortedObject
    ([("kind", .text node.kind)]
      ++ optionalMember "name" node.name.isSome (.ofOption node.name)
      ++ optionalMember "attributes" (!node.attributes.isEmpty) node.attributes.toJson
      ++ optionalMember "properties" (!node.properties.isEmpty) node.properties.toJson
      ++ optionalMember "expressions" (!node.expressions.isEmpty)
        (.array (node.expressions.map .text))
      ++ optionalMember "content" node.content.isSome (.ofOption node.content)
      ++ optionalMember "children" (!children.isEmpty) (.array children))

/-- A node with what is below it down to a depth. -/
def Tree.toJsonWithin (t : Tree) : Nat → NodeId → Json
  | 0, id => (t.node id).toJson []
  | depth + 1, id => (t.node id).toJson ((t.children id).map (t.toJsonWithin depth))

/-- The tree from its root. -/
def Tree.toJson (t : Tree) : Json :=
  t.toJsonWithin t.size 0

/-- The nested view as text. -/
def Tree.dump (t : Tree) : String :=
  t.toJson.pretty

/-! ## Flat -/

/-- Fields as an object, in their own order. -/
def Fields.toRecord (fields : Fields) : Json :=
  .object (fields.map fun field => (field.1, .text field.2))

/-- A node with the numbers of its children and its parent. -/
def Tree.nodeRecord (t : Tree) (id : NodeId) : Json :=
  let node := t.node id
  .object [
    ("kind", .text node.kind),
    ("name", .ofOption node.name),
    ("attributes", node.attributes.toRecord),
    ("properties", node.properties.toRecord),
    ("expressions", .array (node.expressions.map .text)),
    ("content", .ofOption node.content),
    ("children", .array ((t.children id).map .number)),
    ("parent", match t.parent? id with
      | some parent => .number parent
      | none => .null)]

/-- A warning with its place. -/
def Warning.toRecord (w : Warning) : Json :=
  .object [
    ("parent_kind", .text w.parentKind),
    ("message", .text w.skipped.message),
    ("position", .array [.number w.place.row, .number w.place.column])]

/-- A tree and its warnings, with nothing left out. -/
def Tree.toRecord (t : Tree) (warnings : List Warning) : Json :=
  .object [
    ("nodes", .array ((List.range t.size).map t.nodeRecord)),
    ("root", .number 0),
    ("warnings", .array (warnings.map Warning.toRecord))]

/-- The flat view as text. -/
def Tree.record (t : Tree) (warnings : List Warning) : String :=
  (t.toRecord warnings).compact

end SsisCompiler.Package
