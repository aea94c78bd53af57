import SsisCompiler.Package.Tree

/-!
# The layout of a package

Which nodes of a package are its variables, its executables and its connections. A node owns such
things directly, or inside a wrapper that groups them.
-/

namespace SsisCompiler.Package

/-! ## Kinds -/

/-- The kind of a task or a container. -/
def executableKind : String := "DTS:Executable"

/-- The kind of a group of executables. -/
def executableGroupKind : String := "DTS:Executables"

/-- The kind of a variable. -/
def variableKind : String := "DTS:Variable"

/-- The kind of a group of variables. -/
def variableGroupKind : String := "DTS:Variables"

/-- The kind of the value inside a variable. -/
def variableValueKind : String := "DTS:VariableValue"

/-- The kind of a connection. -/
def connectionKind : String := "DTS:ConnectionManager"

/-- The kind of a group of connections. -/
def connectionGroupKind : String := "DTS:ConnectionManagers"

/-! ## What a node owns -/

namespace Tree

/-- The nodes of a kind that are children of a node, or children of its children of the wrapper kind,
in order. -/
def owned (t : Tree) (wrapper kind : String) (id : NodeId) : List NodeId :=
  (t.children id).flatMap fun i =>
    if (t.node i).kind == kind then [i]
    else if (t.node i).kind == wrapper then t.childrenOfKind i kind
    else []

/-- The executables that a node owns. -/
def executablesOf (t : Tree) (id : NodeId) : List NodeId :=
  t.owned executableGroupKind executableKind id

/-- The variables that a node owns. -/
def variablesOf (t : Tree) (id : NodeId) : List NodeId :=
  t.owned variableGroupKind variableKind id

end Tree

/-- The parts of a package that a program is made of. -/
structure Layout where
  /-- The variables of the whole program. -/
  globals : List NodeId
  /-- The executables at the top; the first is where the program starts. -/
  executables : List NodeId
  connections : List NodeId
  deriving DecidableEq, Repr

/-- The layout of a tree. The executables at the top are the root's own; those inside groups count
only if the root has none of its own. -/
def Layout.ofTree (t : Tree) : Layout where
  globals := t.variablesOf 0
  executables :=
    match t.childrenOfKind 0 executableKind with
    | [] =>
      (t.childrenOfKind 0 executableGroupKind).flatMap fun group =>
        t.childrenOfKind group executableKind
    | direct => direct
  connections := t.owned connectionGroupKind connectionKind 0

end SsisCompiler.Package
