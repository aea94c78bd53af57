import SsisCompiler.Compile.Fragment

/-!
# Settings of a task

A setting is a fixed text in the data node of a task or in the task's own node, or an expression on the
task's node, which goes before any fixed text. An expression that has no code leaves a gap, and the
fixed text is used.
-/

namespace SsisCompiler.Compile

open CSharp (Variable)
open Package (NodeId Tree)

/-- Where the body of a task is compiled. -/
structure Site where
  tree : Tree
  /-- The node of the task. -/
  id : NodeId
  /-- The variables lent to the method. -/
  scope : List Variable := []
  /-- The variables of the whole program. -/
  globals : List Variable := []
  /-- The name of the method. -/
  method : String
  /-- Whether statements run through management objects where they can. -/
  useSmo : Bool := true

namespace Site

/-- The node of the task. -/
def node (site : Site) : Package.Node :=
  site.tree.node site.id

/-- What expressions of the task see. -/
def surroundings (site : Site) : Expression.Surroundings :=
  .ofNode site.tree site.id

/-- A gap at the task. -/
def gap (site : Site) (g : Gap) : Fragment :=
  .ofGap site.tree site.id g

/-- The variable with a name: the one lent last, or else the first of the program's. -/
def findVariable? (site : Site) (name : String) : Option Variable :=
  (site.scope.reverse ++ site.globals).find? (·.name == name)

end Site

/-- The fixed text of a setting: from the data node, or from the task's node. There, a property that is
an expression does not count. -/
def fixedSetting? (t : Tree) (id : NodeId) (data : Option NodeId) (key : String) : Option String :=
  match data.bind fun d => (t.node d).lookup key with
  | some value => some value
  | none =>
    let node := t.node id
    if node.isExpression key then node.attribute? key else node.lookup key

/-- The expression of a setting. -/
def expressionSetting? (node : Package.Node) (key : String) : Option String :=
  if node.isExpression key then node.properties.get? key else none

namespace Site

/-- The fixed text of a setting of the task. -/
def fixed? (site : Site) (data : Option NodeId) (key : String) : Option String :=
  fixedSetting? site.tree site.id data key

/-- The code of a setting, and what is left behind by an expression without code. Fixed text is adapted
before it becomes a literal. -/
def setting (site : Site) (data : Option NodeId) (key expressionKey : String)
    (adapt : String → String) : Option String × Fragment :=
  let fixed := (site.fixed? data key).map fun text => CSharp.verbatim (adapt text)
  match expressionSetting? site.node expressionKey with
  | none => (fixed, {})
  | some expression =>
    match Expression.compile site.surroundings expression with
    | .ok code => (some code, {})
    | .error refusal =>
      (fixed,
        site.gap (.expression (" (" ++ expressionKey ++ ")") (Text.oneLine expression) refusal))

/-- A setting whose fixed text is taken as it is. -/
def plainSetting (site : Site) (data : Option NodeId) (key expressionKey : String) :
    Option String × Fragment :=
  site.setting data key expressionKey fun text => text

end Site

end SsisCompiler.Compile
