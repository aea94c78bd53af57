import SsisCompiler.CSharp.Line
import SsisCompiler.CSharp.Variable

/-!
# Statements and methods

The body of a method is a list of statements, each placed at a depth. A statement is kept by what it
does until it is written: what it declares, what it calls and what it stands in for can be read off.
-/

namespace SsisCompiler.CSharp

/-- A statement, or the line that opens a compound statement. -/
inductive Statement
  /-- A local variable. -/
  | declare (v : Variable)
  | assign (name value : String)
  /-- A call of a method of the program, with the variables lent to it. -/
  | call (method : String) (arguments : List Variable)
  /-- Opens a block that holds a resource in a local variable. -/
  | acquire (v : Variable)
  /-- Opens a loop over a collection. -/
  | forEach (typeName name collection : String)
  | openBlock
  | closeBlock
  /-- Any other code on one line. -/
  | code (text : String)
  | comment (text : String)
  /-- A comment in place of something that could not be compiled: what it was, and its text. -/
  | placeholder (subject text : String)
  deriving DecidableEq, Repr

namespace Statement

/-- A local variable with its type and initial value. -/
def newLocal (typeName name value : String) : Statement :=
  .declare ⟨name, typeName, value⟩

/-- The names that a statement declares. -/
def declared : Statement → List String
  | .declare v => [v.name]
  | .acquire v => [v.name]
  | .forEach _ name _ => [name]
  | _ => []

/-- A statement as lines. -/
def lines (indent : String) : Statement → List Line
  | .declare v => [⟨indent, v.declaration ++ ";"⟩]
  | .assign name value => [⟨indent, name ++ " = " ++ value ++ ";"⟩]
  | .call method arguments =>
    [⟨indent, method ++ "(" ++ ", ".intercalate (arguments.map (·.argument)) ++ ");"⟩]
  | .acquire v => [⟨indent, "using (" ++ v.declaration ++ ")"⟩]
  | .forEach typeName name collection =>
    [⟨indent, "foreach (" ++ typeName ++ " " ++ name ++ " in " ++ collection ++ ")"⟩]
  | .openBlock => [⟨indent, "\x7b"⟩]
  | .closeBlock => [⟨indent, "\x7d"⟩]
  | .code text => [⟨indent, text⟩]
  | .comment text => CSharp.comment indent text
  | .placeholder subject text =>
    CSharp.comment indent (placeholderMark ++ subject ++ ": " ++ text)

end Statement

/-- A statement at a depth inside the body of a method. -/
structure Placed where
  depth : Nat
  statement : Statement
  deriving DecidableEq, Repr

/-- The body of a method. -/
abbrev Body := List Placed

namespace Body

/-- Statements at one depth. -/
def placedAt (depth : Nat) (statements : List Statement) : Body :=
  statements.map (⟨depth, ·⟩)

/-- A body as lines. -/
def lines (indent : String) (body : Body) : List Line :=
  body.flatMap fun placed => placed.statement.lines (deeperBy indent placed.depth)

/-- The names that a body declares. -/
def declared (body : Body) : List String :=
  body.flatMap (·.statement.declared)

end Body

/-- A method of a program. -/
structure Method where
  name : String
  /-- The paragraphs of its documentation, each on one line. -/
  summary : List String
  /-- The variables lent by the caller. -/
  parameters : List Variable
  body : Body
  deriving DecidableEq, Repr

namespace Method

/-- The line that declares a method. -/
def header (m : Method) : String :=
  "public static void " ++ m.name ++ "(" ++ ", ".intercalate (m.parameters.map (·.parameter)) ++ ")"

/-- A method as lines, with an empty line behind it. -/
def lines (indent : String) (m : Method) : List Line :=
  [⟨indent, "/// <summary>"⟩]
    ++ m.summary.map (fun paragraph => ⟨indent, "/// " ++ docText paragraph⟩)
    ++ [⟨indent, "/// </summary>"⟩, ⟨indent, m.header⟩, ⟨indent, "\x7b"⟩]
    ++ m.body.lines (deeper indent)
    ++ [⟨indent, "\x7d"⟩, Line.blank]

/-- The text of a method. -/
def render (indent : String) (m : Method) : String :=
  Line.renderAll (m.lines indent)

end Method

end SsisCompiler.CSharp
