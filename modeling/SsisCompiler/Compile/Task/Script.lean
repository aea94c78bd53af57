import SsisCompiler.Compile.Setting
import SsisCompiler.Text.Basic

/-!
# Tasks that run a script

A script task holds a project of source files. The files are kept beside the program, and the method of
the task calls the main class of the script.
-/

namespace SsisCompiler.Compile

open CSharp (Statement)
open Package (NodeId Tree)

/-- The class that a script starts with, and the file it stands in. -/
def scriptClass : String := "ScriptMain"

/-- Whether a file of a project is a source file. -/
def isSourceFile (fileName : String) : Bool :=
  let name := (Text.lower fileName).toList
  ".cs".toList.isSuffixOf name || ".vb".toList.isSuffixOf name

/-- The name of a file without its folders and its last extension. -/
def scriptStem (fileName : String) : String :=
  let backwards := fileName.toList.reverse.takeWhile fun c => c != '/' && c != '\\'
  match Text.breakOn ['.'] backwards with
  | some (_, stem) => String.ofList stem.reverse
  | none => String.ofList backwards.reverse

/-- The namespace that a line declares. -/
def namespaceOfLine? (line : String) : Option String :=
  let start := "namespace ".toList
  let line := (Text.trim line).toList
  if start.isPrefixOf line then
    let name := Text.trimWhile Text.isBlank (line.drop start.length)
    let name := Text.dropEndWhile (fun c => c == '\x7b' || c == ';') name
    let name := Text.trimWhile Text.isBlank name
    if name.isEmpty then none else some (String.ofList name)
  else none

/-- The first namespace that a source file declares. -/
def declaredNamespace? (text : String) : Option String :=
  (Text.lines text).findSome? namespaceOfLine?

/-- The source file of a node of a project: its name and its text. -/
def sourceFile? (node : Package.Node) : Option (String × String) :=
  if node.localKind == "ProjectItem" then
    match node.lookup "Name", node.content with
    | some name, some text => if isSourceFile name then some (name, text) else none
    | _, _ => none
  else none

/-- The source files of a project, in order. -/
def sourceFiles (t : Tree) (project : NodeId) : List (String × String) :=
  ((t.descendants project).map t.node).filterMap sourceFile?

/-- The namespace of the main class: the first that a file of that name declares. -/
def mainNamespace? (files : List (String × String)) : Option String :=
  (files.filter fun file => Text.equalIgnoringCase (scriptStem file.1) scriptClass).findSome?
    fun file => declaredNamespace? file.2

/-- Whether a project is written in Visual Basic. -/
def isVisualBasic (project : Package.Node) : Bool :=
  let language := Text.lower ((project.lookup "Language").getD "")
  Text.holds "basic" language || language == "vb"

/-- The call of a script's main class. -/
def callScript (method : String) (spaceName : Option String) : List Statement :=
  let mainClass := match spaceName with
    | some name => name ++ "." ++ scriptClass
    | none => scriptClass
  [ .comment ("Script sources: scripts/" ++ method ++ "/"),
    .newLocal mainClass "script" ("new " ++ mainClass ++ "()"),
    .code "script.Main();" ]

/-- The body of a task that runs a script. -/
def Site.scriptTask (site : Site) : Fragment :=
  match site.tree.findDescendant? site.id "ScriptProject" with
  | none => site.gap .noScriptProject
  | some project =>
    let files := sourceFiles site.tree project
    let captured : Fragment :=
      { scripts := files.map fun file => ⟨site.method, file.1, file.2⟩ }
    if files.isEmpty then site.gap .noScriptSource
    else if isVisualBasic (site.tree.node project) then captured ++ site.gap .visualBasic
    else captured ++ Fragment.statements 0 (callScript site.method (mainNamespace? files))

end SsisCompiler.Compile
