import SsisCompiler.Package.Layout
import SsisCompiler.Text.Basic

/-!
# Connections

Connection strings are settings `key=value` with semicolons between them. A task refers to a connection
of its package by identifier or by name.
-/

namespace SsisCompiler.Compile

open Package (NodeId Tree)

/-! ## Connection strings -/

/-- The parts of a connection string between its semicolons. -/
def connectionParts (connection : String) : List String :=
  (Text.split (· == ';') connection.toList).map String.ofList

/-- The value that a part gives to a key. -/
def partValue? (key part : String) : Option String :=
  match Text.splitOnce "=" part with
  | some (k, v) => if Text.equalIgnoringCase (Text.trim k) key then some (Text.trim v) else none
  | none => none

/-- The value of the first setting with a key, in any letter case. -/
def connectionValue? (connection key : String) : Option String :=
  (connectionParts connection).findSome? (partValue? key)

/-- The keys that only one kind of driver understands. -/
def driverKeys : List String := ["Provider", "Auto Translate"]

/-- The key of a part of a connection string; a part without a value is all key. -/
def partKey (part : String) : String :=
  match Text.splitOnce "=" part with
  | some (key, _) => Text.trim key
  | none => part

/-- Whether a part is kept for a connection to a server. -/
def isKeptPart (part : String) : Bool :=
  !part.isEmpty && !driverKeys.any (Text.equalIgnoringCase · (partKey part))

/-- A connection string without the settings that a connection to a server refuses. -/
def serverConnection (connection : String) : String :=
  String.join ((((connectionParts connection).map Text.trim).filter isKeptPart).map (· ++ ";"))

/-! ## Connections of a package -/

/-- A connection of a package. -/
structure Connection where
  name : String
  /-- The connection string as stored. -/
  stored : Option String
  deriving DecidableEq, Repr

/-- Whether a node is the connection that a reference names, by its identifier in any letter case or by
its exact name. -/
def isReferred (t : Tree) (reference : String) (id : NodeId) : Bool :=
  let node := t.node id
  (node.lookup "DTSID").any (Text.equalIgnoringCase · reference) || node.name == some reference

/-- The connection string of a node: the first one in the node or below it. -/
def storedConnection? (t : Tree) (id : NodeId) : Option String :=
  (id :: t.descendants id).findSome? fun i => (t.node i).lookup "ConnectionString"

/-- The first connection of a package that a reference names. -/
def connection? (t : Tree) (reference : String) : Option Connection :=
  let reference := Text.trim reference
  ((Package.Layout.ofTree t).connections.find? (isReferred t reference)).map fun id =>
    ⟨(t.node id).name.getD "", storedConnection? t id⟩

end SsisCompiler.Compile
