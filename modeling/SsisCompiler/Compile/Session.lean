import SsisCompiler.Compile.Method
import SsisCompiler.Compile.Options

/-!
# Sessions

A session compiles methods of one package a few at a time. It keeps the names given so far, the
variables of the program, and everything that was left behind.
-/

namespace SsisCompiler.Compile

open CSharp (Variable)
open Package (NodeId Tree)

/-- What a session has done so far. -/
structure Session where
  options : Options := {}
  globals : List Variable := []
  names : Names := {}
  diagnostics : List Diagnostic := []
  scripts : List Script := []
  deriving DecidableEq, Repr, Inhabited

namespace Session

/-- Keeps methods named from now on from taking a name. -/
def reserve (s : Session) (name : String) : Session :=
  { s with names := s.names.reserve name }

/-- Sets the variables of the program and reserves their names. -/
def declareGlobals (s : Session) (globals : List Variable) : Session :=
  { globals.foldl (fun s v => s.reserve v.name) s with globals := globals }

/-- The name of a node's method. -/
def methodName (s : Session) (t : Tree) (id : NodeId) : String × Session :=
  let (name, names) := s.names.give t id
  (name, { s with names := names })

/-- Adds a diagnostic about a node. -/
def report (s : Session) (t : Tree) (id : NodeId) (kind : DiagnosticKind) (message : String) :
    Session :=
  { s with diagnostics := s.diagnostics ++ [⟨kind, (t.node id).label, message⟩] }

/-- Adds the source of a script. -/
def addScript (s : Session) (script : Script) : Session :=
  { s with scripts := s.scripts ++ [script] }

/-- Keeps what a fragment leaves behind. -/
def keep (s : Session) (fragment : Fragment) : Session :=
  { s with
    diagnostics := s.diagnostics ++ fragment.diagnostics
    scripts := s.scripts ++ fragment.scripts }

/-- The variable with a name: the one lent last, or else the first of the program's. -/
def findVariable? (s : Session) (scope : List Variable) (name : String) : Option Variable :=
  (scope.reverse ++ s.globals).find? (·.name == name)

/-- Where a task of the session is compiled. -/
def site (s : Session) (t : Tree) (id : NodeId) (scope : List Variable) (method : String) : Site where
  tree := t
  id := id
  scope := scope
  globals := s.globals
  method := method
  useSmo := s.options.useSmo

/-- The text of a node's method and of those inside it. -/
def addMethods (s : Session) (t : Tree) (id : NodeId) (indent : String) (scope : List Variable) :
    String × Session :=
  let setup : Setup := { tree := t, globals := s.globals, useSmo := s.options.useSmo }
  let (methods, names) := setup.methodsOf [id] scope s.names
  (String.join (methods.map (·.method.render indent)),
    { s with
      names := names
      diagnostics := s.diagnostics ++ methods.flatMap (·.diagnostics)
      scripts := s.scripts ++ methods.flatMap (·.scripts) })

end Session

end SsisCompiler.Compile
