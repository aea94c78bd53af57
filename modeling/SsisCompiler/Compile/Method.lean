import SsisCompiler.Compile.Names
import SsisCompiler.Compile.Task.Basic

/-!
# Methods of executables

Each executable becomes a method; the methods of the executables inside a container follow the
container's own. A container lends every variable it can see to the executables it calls, and a
variable that it declares itself is one of them.
-/

namespace SsisCompiler.Compile

open CSharp (Body Method Statement Variable)
open Package (NodeId Tree)

/-- What the compilation of all methods shares. -/
structure Setup where
  tree : Tree
  globals : List Variable := []
  useSmo : Bool := true

/-- A method with what its compilation left behind. -/
structure Compiled where
  /-- The node that the method is of. -/
  id : NodeId
  method : Method
  diagnostics : List Diagnostic
  scripts : List Script
  deriving DecidableEq, Repr

namespace Setup

/-- The node with a number. -/
def node (s : Setup) (id : NodeId) : Package.Node :=
  s.tree.node id

/-- What expressions at a node see. -/
def surroundings (s : Setup) (id : NodeId) : Expression.Surroundings :=
  .ofNode s.tree id

/-! ## Containers -/

/-- Declares variables one after the other: a variable that is there already is assigned to, because a
local may not hide a parameter, and takes the place of the old one. -/
def declareAll : List Variable → List Variable → List Statement × List Variable
  | [], scope => ([], scope)
  | v :: vs, scope =>
    let statement :=
      if Variable.isDeclared v.name scope then Statement.assign v.name v.initialValue
      else .declare v
    let (statements, scope) := declareAll vs (v.declareIn scope)
    (statement :: statements, scope)

/-- A part of the head of a counting loop: the code of a property, or what stands in for it. -/
def loopPart (s : Setup) (id : NodeId) (key fallback : String) : String × Fragment :=
  match (s.node id).lookup key with
  | none => (fallback, {})
  | some expression =>
    if Text.isAllBlank expression then (fallback, {})
    else
      match Expression.compile (s.surroundings id) expression with
      | .ok code => (code, {})
      | .error refusal =>
        (fallback, .ofGap s.tree id (.expression (" (" ++ key ++ ")") refusal.expression refusal))

/-- The head of a counting loop. -/
def forLoopHead (s : Setup) (id : NodeId) : Fragment :=
  let (init, initGaps) := s.loopPart id "InitExpression" ""
  let (test, testGaps) := s.loopPart id "EvalExpression" "false"
  let (step, stepGaps) := s.loopPart id "AssignExpression" ""
  initGaps ++ testGaps ++ stepGaps
    ++ Fragment.statements 0
      [.code ("for (" ++ init ++ "; " ++ test ++ "; " ++ step ++ ")"), .openBlock]

/-- What a loop over a collection goes through. -/
def enumeratorName (s : Setup) (id : NodeId) : String :=
  ((s.tree.findDescendant? id "ForEachEnumerator").bind fun e =>
    (s.node e).lookup "CreationName").getD "unknown"

/-- The head of a loop over a collection, which runs once because the collection has no code. -/
def forEachHead (s : Setup) (id : NodeId) : Fragment :=
  .ofGap s.tree id (.enumerator (s.enumeratorName id))
    ++ Fragment.statements 0 [.forEach "object" "item" "new object[] \x7b null \x7d", .openBlock]

/-- The statements of a container that calls nothing. -/
def idleBody (s : Setup) (id : NodeId) (container : Container) : Fragment :=
  match container with
  | .forLoop =>
    s.forLoopHead id ++ Fragment.statements 1 [.comment "No executables"]
      ++ Fragment.statements 0 [.closeBlock]
  | _ => Fragment.statements 0 [.comment "No executables"]

/-- The calls of a container, inside its loop if it is one. -/
def callBody (s : Setup) (id : NodeId) (container : Container) (calls : List Statement) : Fragment :=
  match container with
  | .forLoop =>
    s.forLoopHead id ++ Fragment.statements 1 calls ++ Fragment.statements 0 [.closeBlock]
  | .forEachLoop =>
    s.forEachHead id ++ Fragment.statements 1 calls ++ Fragment.statements 0 [.closeBlock]
  | _ => Fragment.statements 0 calls

/-- The body of a container, the variables it lends, and the names after it. The names of all lent
variables are reserved first: a method of the same name could not be called. -/
def containerBody (s : Setup) (id : NodeId) (container : Container) (scope : List Variable)
    (names : Names) : Fragment × List Variable × Names :=
  let own := (s.tree.variablesOf id).map (declaredVariable s.tree)
  let (declarations, inner) := declareAll own scope
  let names := inner.foldl (fun names v => names.reserve v.name) names
  let (methods, names) := names.giveAll s.tree (s.tree.executablesOf id)
  let rest :=
    if methods.isEmpty then s.idleBody id container
    else s.callBody id container (methods.map (Statement.call · inner))
  (Fragment.statements 0 declarations ++ rest, inner, names)

/-! ## Methods -/

/-- The documentation of a node's method: how the node is spoken of, and its description. -/
def summary (s : Setup) (id : NodeId) : List String :=
  let node := s.node id
  match node.lookup "Description" with
  | some text => if Text.isAllBlank text then [node.label] else [node.label, text]
  | none => [node.label]

/-- The body of a node's method, the variables lent to the methods inside it, and the names after it. -/
def body (s : Setup) (id : NodeId) (method : String) (scope : List Variable) (names : Names) :
    Fragment × List Variable × Names :=
  match Executable.ofNode? s.tree id with
  | none => (.ofGap s.tree id (.notExecutable (s.node id).label), scope, names)
  | some (.task kind) =>
    let site : Site := {
      tree := s.tree, id := id, scope := scope, globals := s.globals, method := method,
      useSmo := s.useSmo }
    (site.task kind, scope, names)
  | some (.container container) => s.containerBody id container scope names

/-- The method of a node, without the methods inside it. -/
def method (s : Setup) (id : NodeId) (scope : List Variable) (names : Names) :
    Compiled × List Variable × Names :=
  let (name, names) := names.give s.tree id
  let (fragment, inner, names) := s.body id name scope names
  (⟨id, ⟨name, s.summary id, scope, fragment.body⟩, fragment.diagnostics, fragment.scripts⟩,
    inner, names)

/-- The methods of an outline, each before those inside it. -/
def methods (s : Setup) : Outline → List Variable → Names → List Compiled × Names
  | .done, _, names => ([], names)
  | .executable id inner rest, scope, names =>
    let (first, lent, names) := s.method id scope names
    let (insides, names) := s.methods inner lent names
    let (others, names) := s.methods rest scope names
    (first :: (insides ++ others), names)

/-- The methods of some nodes and of all executables inside them. -/
def methodsOf (s : Setup) (ids : List NodeId) (scope : List Variable) (names : Names) :
    List Compiled × Names :=
  s.methods (Outline.ofIds s.tree ids) scope names

end Setup

end SsisCompiler.Compile
