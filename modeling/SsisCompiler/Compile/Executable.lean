import SsisCompiler.Package.Layout
import SsisCompiler.Text.Basic

/-!
# Executables

What a node that can be run is: a container of other executables, or a task of some kind.
-/

namespace SsisCompiler.Compile

open Package (NodeId Tree)

/-- The kinds of tasks. -/
inductive TaskKind
  | executeSql
  | script
  | sendMail
  | expression
  | dataFlow
  /-- A task of a type that has no code. -/
  | unknown (type : String)
  deriving DecidableEq, Repr

namespace TaskKind

/-- The kind that the type of an executable names. -/
def ofType (type : String) : TaskKind :=
  let word := Text.lower type
  if Text.holds "executesqltask" word then .executeSql
  else if Text.holds "scripttask" word then .script
  else if Text.holds "sendmailtask" word then .sendMail
  else if Text.holds "expressiontask" word then .expression
  else if Text.holds "pipeline" word then .dataFlow
  else .unknown type

/-- The name of a kind. -/
def name : TaskKind → String
  | .executeSql => "ExecuteSql"
  | .script => "Script"
  | .sendMail => "SendMail"
  | .expression => "Expression"
  | .dataFlow => "DataFlow"
  | .unknown type => type

/-- Whether a kind has code. -/
def isKnown : TaskKind → Bool
  | .unknown _ => false
  | _ => true

end TaskKind

/-- The kinds of containers. -/
inductive Container
  | package
  | sequence
  | forLoop
  | forEachLoop
  deriving DecidableEq, Repr

/-- What an executable is. -/
inductive Executable
  | container (c : Container)
  | task (kind : TaskKind)
  deriving DecidableEq, Repr

namespace Executable

/-- What the type of an executable says; `top` is true of a node without a parent. -/
def ofType (type : String) (top : Bool) : Executable :=
  match Text.upper type with
  | "STOCK:SEQUENCE" => .container .sequence
  | "STOCK:FORLOOP" => .container .forLoop
  | "STOCK:FOREACHLOOP" => .container .forEachLoop
  | word =>
    if (word.isEmpty && top) || (Text.holds "PACKAGE" word && !Text.holds "TASK" word) then
      .container .package
    else .task (.ofType type)

/-- What a node is, if it is an executable. -/
def ofNode? (t : Tree) (id : NodeId) : Option Executable :=
  let node := t.node id
  if node.kind == Package.executableKind then
    let type := ((node.lookup "ExecutableType").or (node.lookup "CreationName")).getD ""
    some (ofType (Text.trim type) (t.parent? id).isNone)
  else none

end Executable

/-- The executables that a node runs: those it owns if it is a container, else none. -/
def callees (t : Tree) (id : NodeId) : List NodeId :=
  match Executable.ofNode? t id with
  | some (.container _) => t.executablesOf id
  | _ => []

/-! ## Outlines -/

/-- Executables in order, each with those inside it. -/
inductive Outline
  | done
  | executable (id : NodeId) (inner rest : Outline)
  deriving DecidableEq, Repr

namespace Outline

/-- The outline of some executables down to a depth. -/
def within (t : Tree) : Nat → List NodeId → Outline
  | 0, _ => .done
  | depth + 1, ids =>
    ids.foldr (fun id rest => .executable id (within t depth (callees t id)) rest) .done

/-- The outline of some executables. No tree is deeper than its size. -/
def ofIds (t : Tree) (ids : List NodeId) : Outline :=
  within t (t.size + 1) ids

/-- The executables of an outline, each before those inside it. -/
def ids : Outline → List NodeId
  | .done => []
  | .executable id inner rest => id :: (inner.ids ++ rest.ids)

end Outline

end SsisCompiler.Compile
