import SsisCompiler.CSharp.Method
import SsisCompiler.Expression.Code

/-!
# Pieces of a method and what they leave behind

Compiling a part of a package gives statements, diagnostics about what has no code, and the sources of
scripts. Such results are joined in order. Wherever something has no code, a placeholder is written and
a diagnostic made, always both together.
-/

namespace SsisCompiler.Compile

open CSharp (Body Statement)
open Package (NodeId Tree)

/-! ## Diagnostics -/

/-- What a diagnostic is about. -/
inductive DiagnosticKind
  /-- Something that has no code. -/
  | uncompiled
  /-- A node that is not what it should be. -/
  | unrecognized
  deriving DecidableEq, Repr

/-- A problem that did not stop the compilation. -/
structure Diagnostic where
  kind : DiagnosticKind
  /-- How the node is spoken of. -/
  node : String
  message : String
  deriving DecidableEq, Repr

/-- A diagnostic in words. -/
def Diagnostic.text (d : Diagnostic) : String :=
  d.node ++ ": " ++ d.message

/-- Why a placeholder stands in a method. -/
inductive Gap
  | notExecutable (label : String)
  | taskType (type : String)
  | enumerator (name : String)
  /-- An expression that was refused: what it belongs to, how it is shown, and the refusal. -/
  | expression (subject shown : String) (refusal : Expression.Refusal)
  | noStatement
  | markersInExpression
  | noConnection
  | connectionNotFound (reference : String)
  | noConnectionString (name : String)
  | noScriptProject
  | noScriptSource
  | visualBasic
  | noSender
  | noExpression
  | dataFlow (components : Nat)
  deriving DecidableEq, Repr

namespace Gap

/-- A gap in words. -/
def message : Gap → String
  | .notExecutable label => label ++ " is not an executable"
  | .taskType type => "task type '" ++ type ++ "' has no translation"
  | .enumerator name => "for-each enumerator '" ++ name ++ "'"
  | .expression _ _ refusal => refusal.message
  | .noStatement => "task has no SQL statement"
  | .markersInExpression => "'?' markers in an expression-built statement are not renamed"
  | .noConnection => "task has no connection"
  | .connectionNotFound reference => "connection '" ++ reference ++ "' not found in package"
  | .noConnectionString name => "connection '" ++ name ++ "' has no connection string"
  | .noScriptProject => "script task has no embedded project"
  | .noScriptSource => "script project contains no source files"
  | .visualBasic => "Visual Basic script captured but not callable from C#"
  | .noSender => "mail task has no sender"
  | .noExpression => "expression task has no expression"
  | .dataFlow components => "data flow with " ++ toString components ++ " component(s)"

/-- The placeholder of a gap. -/
def placeholder (gap : Gap) : Statement :=
  match gap with
  | .expression subject shown _ => .placeholder (" EXPRESSION" ++ subject) shown
  | .enumerator _ => .placeholder "" (gap.message ++ "; the loop body runs once")
  | _ => .placeholder "" gap.message

/-- What kind of diagnostic a gap makes. -/
def kind : Gap → DiagnosticKind
  | .notExecutable _ => .unrecognized
  | _ => .uncompiled

/-- The diagnostic of a gap at a node. -/
def diagnostic (t : Tree) (id : NodeId) (gap : Gap) : Diagnostic :=
  ⟨gap.kind, (t.node id).label, gap.message⟩

end Gap

/-! ## Fragments -/

/-- The source of a script, as it stands in a package. -/
structure Script where
  /-- The method of the task that the script belongs to. -/
  method : String
  /-- The name of the file, which may hold folders. -/
  fileName : String
  text : String
  deriving DecidableEq, Repr

/-- Statements with the diagnostics and scripts that come with them. -/
structure Fragment where
  body : Body := []
  diagnostics : List Diagnostic := []
  scripts : List Script := []
  deriving DecidableEq, Repr, Inhabited

namespace Fragment

/-- One fragment after the other. -/
def append (a b : Fragment) : Fragment :=
  ⟨a.body ++ b.body, a.diagnostics ++ b.diagnostics, a.scripts ++ b.scripts⟩

instance : Append Fragment := ⟨append⟩

@[simp]
theorem append_body (a b : Fragment) : (a ++ b).body = a.body ++ b.body := rfl

@[simp]
theorem append_diagnostics (a b : Fragment) :
    (a ++ b).diagnostics = a.diagnostics ++ b.diagnostics := rfl

@[simp]
theorem append_scripts (a b : Fragment) : (a ++ b).scripts = a.scripts ++ b.scripts := rfl

/-- Statements at one depth and nothing else. -/
def statements (depth : Nat) (list : List Statement) : Fragment :=
  { body := Body.placedAt depth list }

/-- The placeholder and the diagnostic of a gap at a node. -/
def ofGap (t : Tree) (id : NodeId) (gap : Gap) : Fragment :=
  { body := Body.placedAt 0 [gap.placeholder], diagnostics := [gap.diagnostic t id] }

end Fragment

end SsisCompiler.Compile
