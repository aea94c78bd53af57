import SsisCompiler.Compile.Executable
import SsisCompiler.Compile.Task.Mail
import SsisCompiler.Compile.Task.Script
import SsisCompiler.Compile.Task.Sql

/-!
# Tasks

The body of the method of a task, by the kind of the task.
-/

namespace SsisCompiler.Compile

open CSharp (Statement)

/-! ## Expressions -/

/-- The body of a task that evaluates an expression. -/
def Site.expressionTask (site : Site) : Fragment :=
  let data := site.tree.findDescendant? site.id "ExpressionTask"
  match site.fixed? data "Expression" with
  | none => site.gap .noExpression
  | some expression =>
    match Expression.compileStatement site.surroundings expression with
    | .ok code => Fragment.statements 0 [.code (code ++ ";")]
    | .error refusal => site.gap (.expression "" expression refusal)

/-! ## Data flows -/

/-- How a component of a data flow is listed. -/
def componentText (node : Package.Node) : String :=
  let name := (node.lookup "name").getD "unnamed"
  match node.lookup "componentClassID" with
  | some classId => name ++ " (" ++ classId ++ ")"
  | none => name

/-- The components of a data flow, in order. -/
def Site.components (site : Site) : List Package.Node :=
  ((site.tree.descendants site.id).map site.tree.node).filter (·.localKind == "component")

/-- The body of a data flow: a placeholder that lists the components. -/
def Site.dataFlowTask (site : Site) : Fragment :=
  let components := site.components
  site.gap (.dataFlow components.length)
    ++ Fragment.statements 0 (components.map fun node => .comment ("  - " ++ componentText node))

/-! ## All kinds -/

/-- The body of a task that has no code: a placeholder, and a failure at run time. -/
def Site.unknownTask (site : Site) (type : String) : Fragment :=
  site.gap (.taskType type)
    ++ Fragment.statements 0 [.code ("throw new NotImplementedException("
      ++ CSharp.verbatim (site.method ++ " is not translated") ++ ");")]

/-- The body of a task. -/
def Site.task (site : Site) : TaskKind → Fragment
  | .executeSql => site.sqlTask
  | .script => site.scriptTask
  | .sendMail => site.mailTask
  | .expression => site.expressionTask
  | .dataFlow => site.dataFlowTask
  | .unknown type => site.unknownTask type

end SsisCompiler.Compile
