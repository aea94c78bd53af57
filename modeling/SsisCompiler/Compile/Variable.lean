import SsisCompiler.CSharp.Identifier
import SsisCompiler.CSharp.Line
import SsisCompiler.CSharp.ValueType
import SsisCompiler.CSharp.Variable
import SsisCompiler.Package.Layout

/-!
# Variables of a package

The variable of a program that a variable node stands for. Its type and its stored value may stand in
the node itself or in the value node inside it.
-/

namespace SsisCompiler.Compile

open CSharp (Variable)
open Package (NodeId Tree)

/-- The type of a variable node. -/
def variableType (t : Tree) (id : NodeId) : CSharp.ValueType :=
  let inner := (t.firstChildOfKind? id Package.variableValueKind).map t.node
  .ofCode (((t.node id).lookup "DataType").or (inner.bind (·.lookup "DataType")))

/-- The stored value of a variable node: its property, or the text of the value node, or its own
text. -/
def storedValue? (t : Tree) (id : NodeId) : Option String :=
  let node := t.node id
  let inner := (t.firstChildOfKind? id Package.variableValueKind).map t.node
  ((node.properties.get? "Value").or (inner.bind (·.content))).or node.content

/-- The identifier of a variable node. -/
def variableName (t : Tree) (id : NodeId) : String :=
  CSharp.variableIdent ((t.node id).name.getD "variable")

/-- The variable that a node stands for. -/
def declaredVariable (t : Tree) (id : NodeId) : Variable :=
  let type := variableType t id
  ⟨variableName t id, type.name, type.initialValue (storedValue? t id)⟩

/-- A variable as a field of the program. -/
def fieldLine (indent : String) (v : Variable) : CSharp.Line :=
  ⟨indent, "public static " ++ v.declaration ++ ";"⟩

/-- A variable as a local of a method. -/
def localLine (indent : String) (v : Variable) : CSharp.Line :=
  ⟨indent, v.declaration ++ ";"⟩

/-- The identifier of the variable that a task refers to: what stands after the last double colon,
without a leading `@` and without brackets around it. -/
def referenceIdent (reference : String) : String :=
  let name := Text.afterLastPiece [':', ':'] reference.toList
  let bare := Text.trimWhile (fun c => c == '[' || c == ']') (name.dropWhile (· == '@'))
  CSharp.variableIdent (String.ofList bare)

end SsisCompiler.Compile
