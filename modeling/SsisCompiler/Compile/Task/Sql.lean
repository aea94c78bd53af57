import SsisCompiler.Compile.Connection
import SsisCompiler.Compile.Setting
import SsisCompiler.Compile.Task.Markers
import SsisCompiler.Compile.Variable
import SsisCompiler.Text.Decimal

/-!
# Tasks that run a statement

The body of a task that runs an SQL statement on a connection. Without parameters and results the
statement may run through management objects, which understand batches; else it is a command.
-/

namespace SsisCompiler.Compile

open CSharp (Body Statement)
open Package (NodeId Tree)

/-- A parameter or a result of a statement, bound to a variable. -/
structure Binding where
  name : String
  /-- The identifier of the variable. -/
  variableName : String
  deriving DecidableEq, Repr

/-- The binding of a node, if it has a name and a variable. -/
def Binding.ofNode? (nameKey : String) (node : Package.Node) : Option Binding :=
  match node.lookup nameKey, node.lookup "DtsVariableName" with
  | some name, some reference => some ⟨name, referenceIdent reference⟩
  | _, _ => none

/-- The bindings of a kind in the data node of a task. -/
def bindings (t : Tree) (data : Option NodeId) (kind nameKey : String) : List Binding :=
  match data with
  | none => []
  | some data =>
    (((t.children data).map t.node).filter (·.localKind == kind)).filterMap
      (Binding.ofNode? nameKey)

/-- Whether a parameter is known by its number. -/
def isNumbered (name : String) : Bool :=
  Text.isDigits (Text.trim name).toList

/-- Whether a statement marks its parameters by question marks: there are some, all numbered. -/
def hasMarkers (parameters : List Binding) : Bool :=
  !parameters.isEmpty && parameters.all (isNumbered ·.name)

/-- The name of a parameter in a command. -/
def parameterName (name : String) : String :=
  let name := Text.trim name
  if isNumbered name then "@p" ++ name
  else if name.toList.head? == some '@' then name
  else "@" ++ name

/-- The number that a text denotes, if it is below a limit. -/
def naturalBelow? (limit : Nat) (s : String) : Option Nat :=
  (Text.natural? (Text.trim s)).filter (· < limit)

/-- The time limit of a statement in seconds; zero is none. -/
def timeLimit? (t : Tree) (data : Option NodeId) : Option Nat :=
  ((data.bind fun d => (t.node d).lookup "TimeOut").bind (naturalBelow? (Nat.pow 2 32))).filter (0 < ·)

/-- The column that a result is read from: a number, or a name. -/
def columnCode (name : String) : String :=
  match naturalBelow? (Nat.pow 2 64) name with
  | some n => toString n
  | none => CSharp.verbatim name

namespace Site

/-- The statement of the task, and what is left behind. -/
def sqlStatement (site : Site) (data : Option NodeId) (parameters : List Binding) :
    String × Fragment :=
  let key := "SqlStatementSource"
  let adapt := if hasMarkers parameters then renameMarkers else fun text => text
  match site.setting data key key adapt with
  | (some code, fragment) => (code, fragment)
  | (none, fragment) => (CSharp.verbatim "", fragment ++ site.gap .noStatement)

/-- The gap of a statement that is computed but marks its parameters. -/
def markerGap (site : Site) (parameters : List Binding) : Fragment :=
  match expressionSetting? site.node "SqlStatementSource" with
  | none => {}
  | some expression =>
    match hasMarkers parameters, Expression.compile site.surroundings expression with
    | true, .ok _ => site.gap .markersInExpression
    | _, _ => {}

/-- The connection string of the task, and what is left behind. -/
def sqlConnection (site : Site) (data : Option NodeId) : String × Fragment :=
  match site.fixed? data "Connection" with
  | none => (CSharp.verbatim "", site.gap .noConnection)
  | some reference =>
    match connection? site.tree reference with
    | none => (CSharp.verbatim "", site.gap (.connectionNotFound reference))
    | some connection =>
      match connection.stored with
      | none => (CSharp.verbatim "", site.gap (.noConnectionString connection.name))
      | some stored => (CSharp.verbatim (serverConnection stored), {})

/-- The cast of a result to the type of its variable, if the type is known. -/
def resultCast (site : Site) (variableName : String) : String :=
  match site.findVariable? variableName with
  | none => ""
  | some v => if v.typeName == CSharp.ValueType.dynamic.name then "" else "(" ++ v.typeName ++ ")"

/-- The statement that reads a result into its variable. -/
def readResult (site : Site) (result : Binding) : Statement :=
  .assign result.variableName
    (site.resultCast result.variableName ++ "dr[" ++ columnCode result.name ++ "]")

end Site

/-- The statement that sets a parameter of a command. -/
def addParameter (parameter : Binding) : Statement :=
  .code ("cmd.Parameters.AddWithValue(" ++ CSharp.verbatim (parameterName parameter.name) ++ ", "
    ++ parameter.variableName ++ ");")

/-- A statement for a value that may be missing. -/
def optionalCode (value : Option Nat) (code : String → String) : List Statement :=
  match value with
  | some n => [.code (code (toString n))]
  | none => []

/-- Opens the connection of a statement. -/
def openConnection : List Statement :=
  [.acquire ⟨"conn", "SqlConnection", "new SqlConnection(connstr)"⟩, .openBlock]

/-- A statement that runs through management objects. -/
def serverBody (limit : Option Nat) : Body :=
  Body.placedAt 0 openConnection
    ++ Body.placedAt 1
      ([.newLocal "Server" "server" "new Server(new ServerConnection(conn))"]
        ++ optionalCode limit (fun n => "server.ConnectionContext.StatementTimeout = " ++ n ++ ";")
        ++ [.code "server.ConnectionContext.ExecuteNonQuery(sql);"])
    ++ Body.placedAt 0 [.closeBlock]

/-- Running a command: without results at once, else through a reader. -/
def runCommand (reads : List Statement) : Body :=
  if reads.isEmpty then Body.placedAt 2 [.code "cmd.ExecuteNonQuery();"]
  else
    Body.placedAt 2 [.acquire ⟨"dr", "SqlDataReader", "cmd.ExecuteReader()"⟩, .openBlock]
      ++ Body.placedAt 3 [.code "if (dr.Read())", .openBlock]
      ++ Body.placedAt 4 reads
      ++ Body.placedAt 3 [.closeBlock]
      ++ Body.placedAt 2 [.closeBlock]

/-- A statement that runs as a command. -/
def commandBody (limit : Option Nat) (parameters : List Binding) (reads : List Statement) : Body :=
  Body.placedAt 0 openConnection
    ++ Body.placedAt 1 [
      .code "conn.Open();",
      .acquire ⟨"cmd", "SqlCommand", "new SqlCommand(sql, conn)"⟩,
      .openBlock]
    ++ Body.placedAt 2
      (optionalCode limit (fun n => "cmd.CommandTimeout = " ++ n ++ ";")
        ++ parameters.map addParameter)
    ++ runCommand reads
    ++ Body.placedAt 1 [.closeBlock]
    ++ Body.placedAt 0 [.closeBlock]

/-- The body of a task that runs a statement. -/
def Site.sqlTask (site : Site) : Fragment :=
  let data := site.tree.findDescendant? site.id "SqlTaskData"
  let results := bindings site.tree data "ResultBinding" "ResultName"
  let parameters := bindings site.tree data "ParameterBinding" "ParameterName"
  let (statement, statementGaps) := site.sqlStatement data parameters
  let (connection, connectionGaps) := site.sqlConnection data
  let limit := timeLimit? site.tree data
  let texts := [Statement.newLocal "string" "connstr" connection, .newLocal "string" "sql" statement]
  let run :=
    if site.useSmo && results.isEmpty && parameters.isEmpty then serverBody limit
    else commandBody limit parameters (results.map site.readResult)
  statementGaps ++ site.markerGap parameters ++ connectionGaps ++ Fragment.statements 0 texts
    ++ { body := run }

end SsisCompiler.Compile
